import ProcFS.Data.Pcblist
import ProcFS.Lib.Printf
import ProcFS.Types

/-!
# ProcFS.Data.InetSockets — the tables of the TCP and UDP sockets

`build_net_pcb_blob` prints a row for each socket of an address family. The blocks of a
socket follow its protocol control block, so a row can only be printed when the next control
block is met, or the stream is over. The stream ends in a generation record, whose count
is taken for a kind: with 1, 2, 4 or 32 sockets the record is taken for a block of the last
socket, with 16 of them for the control block of one more.

* `emitRecord_foldl`: the rows after some sockets.
* `emitRecord_inpcb`: what comes of a generation record that is taken for a control block.
* `buildNetPcbBlob_iff`: when the table is right.
-/

namespace ProcFS.Data

open Lib (fieldAt u8At u16At u32At hexField decField digits)

/-! ## Kinds of blocks and address families -/

def xsoSocket : ℕ := 0x001

def xsoRcvbuf : ℕ := 0x002

def xsoSndbuf : ℕ := 0x004

def xsoStats : ℕ := 0x008

def xsoInpcb : ℕ := 0x010

def xsoTcpcb : ℕ := 0x020

def inpIpv4 : UInt8 := 0x1

def inpIpv6 : UInt8 := 0x2

/-! ## The records -/

/-- An address of 16 bytes, as four words; a v4 address is the last of them. -/
structure InAddr where
  w0 : UInt32
  w1 : UInt32
  w2 : UInt32
  w3 : UInt32
deriving DecidableEq, Repr

def InAddr.ofBytes (off : ℕ) (p : List UInt8) : InAddr :=
  ⟨u32At off p, u32At (off + 4) p, u32At (off + 8) p, u32At (off + 12) p⟩

/-- `struct xinpcb_n`, as far as it is read. -/
structure Xinpcb where
  inpFport : UInt16
  inpLport : UInt16
  inpVflag : UInt8
  inpDependfaddr : InAddr
  inpDependladdr : InAddr
deriving DecidableEq, Repr

def Xinpcb.ofBytes (p : List UInt8) : Xinpcb :=
  ⟨u16At 16 p, u16At 18 p, u8At 44 p, InAddr.ofBytes 48 p, InAddr.ofBytes 64 p⟩

def sizeofXinpcb : ℕ := 104

/-- `struct xsocket_n`, as far as it is read. -/
structure Xsocket where
  soType : UInt16
  soOptions : UInt32
  soState : UInt16
  soUid : UInt32
  soUsecount : UInt32
deriving DecidableEq, Repr

def Xsocket.ofBytes (p : List UInt8) : Xsocket :=
  ⟨u16At 16 p, u32At 20 p, u16At 26 p, u32At 64 p, u32At 92 p⟩

def sizeofXsocket : ℕ := 104

/-- `struct xsockbuf_n`, as far as it is read. -/
structure Xsockbuf where
  sbCc : UInt32
deriving DecidableEq, Repr

def Xsockbuf.ofBytes (p : List UInt8) : Xsockbuf := ⟨u32At 8 p⟩

def sizeofXsockbuf : ℕ := 32

/-- The beginning of `struct xtcpcb_n`. -/
structure Xtcpcb where
  tState : Int32
deriving DecidableEq, Repr

def Xtcpcb.ofBytes (p : List UInt8) : Xtcpcb := ⟨(u32At 36 p).toInt32⟩

def sizeofXtcpcb : ℕ := 40

/-! ## Rows -/

/-- `ntohs`, on a little-endian machine. -/
def ntohs (x : UInt16) : UInt16 := (x <<< 8) ||| (x >>> 8)

def procfsTcpStateLinux : List UInt8 := [7, 10, 2, 3, 1, 8, 4, 11, 9, 5, 6]

/-- What the blocks seen so far say about the socket at hand. The pointers are followed
when they are set, since the buffer does not change. -/
structure PcbRec where
  xi : Option Xinpcb
  xso : Option Xsocket
  xt : Option Xtcpcb
  rcv : Option Xsockbuf
  snd : Option Xsockbuf
deriving DecidableEq, Repr

/-- The columns behind the addresses, as far as they vary. -/
structure PcbColumns where
  st : UInt8
  txq : UInt32
  rxq : UInt32
  uid : UInt32
deriving DecidableEq, Repr

/-- The Linux number of a state of TCP. -/
def tcpState (xt : Option Xtcpcb) : UInt8 :=
  let ts := (xt.map Xtcpcb.tState).getD 0
  if 0 ≤ ts ∧ ts < 11 then procfsTcpStateLinux.getD ts.toNatClampNeg 0 else 0

def pcbColumns (isTcp : Bool) (xi : Xinpcb) (r : PcbRec) : PcbColumns where
  st := if isTcp then tcpState r.xt else if xi.inpFport ≠ 0 then 1 else 7
  txq := (r.snd.map Xsockbuf.sbCc).getD 0
  rxq := (r.rcv.map Xsockbuf.sbCc).getD 0
  uid := (r.xso.map Xsocket.soUid).getD 0

def pcbAddr (v6 : Bool) (a : InAddr) (port : UInt16) : List UInt8 :=
  (if v6 then hexField true 8 a.w0.toNat ++ hexField true 8 a.w1.toNat ++ hexField true 8 a.w2.toNat
    else []) ++ hexField true 8 a.w3.toNat ++ cstr ":" ++ hexField true 4 (ntohs port).toNat

def pcbRowHead (v6 : Bool) (sl : ℕ) (xi : Xinpcb) : List UInt8 :=
  decField 4 sl ++ cstr ": " ++ pcbAddr v6 xi.inpDependladdr xi.inpLport ++ cstr " " ++
    pcbAddr v6 xi.inpDependfaddr xi.inpFport ++ cstr " "

def pcbRowTail (c : PcbColumns) : List UInt8 :=
  hexField true 2 c.st.toNat ++ (cstr " " ++ (hexField true 8 c.txq.toNat ++ (cstr ":" ++
    (hexField true 8 c.rxq.toNat ++ (cstr " " ++ hexField true 2 0 ++ cstr ":" ++
      hexField true 8 0 ++ cstr " " ++ hexField true 8 0 ++ cstr " " ++
        (decField 5 c.uid.toNat ++
          (cstr " " ++ decField 8 0 ++ cstr " " ++ digits 10 false 0 ++ cstr "\n")))))))

/-- The text that `EMIT_RECORD` prints. -/
def pcbEmitted (wantVflag : UInt8) (isTcp : Bool) (sl : ℕ) (r : PcbRec) : List UInt8 :=
  match r.xi with
  | none => []
  | some xi =>
    if xi.inpVflag &&& wantVflag ≠ 0 then
      pcbRowHead (wantVflag == inpIpv6) sl xi ++ pcbRowTail (pcbColumns isTcp xi r)
    else []

/-! ## The builder -/

structure PcbState where
  cur : PcbRec
  /-- How many rows were printed: an `int`, which does not overflow before 2^31 rows. -/
  sl : ℕ
  out : List UInt8
deriving DecidableEq, Repr

def emitRecord (wantVflag : UInt8) (isTcp : Bool) (s : PcbState) : PcbState where
  cur := s.cur
  sl := if s.cur.xi.any fun xi => xi.inpVflag &&& wantVflag != 0 then s.sl + 1 else s.sl
  out := s.out ++ pcbEmitted wantVflag isTcp s.sl s.cur

/-- The switch of `build_net_pcb_blob`. -/
def pcbStep (wantVflag : UInt8) (isTcp : Bool) (kind : ℕ) (p : List UInt8) (s : PcbState) :
    Option PcbState :=
  if kind = xsoInpcb then
    -- a new socket: the one before it is complete
    some { emitRecord wantVflag isTcp s with
      cur := ⟨some (Xinpcb.ofBytes p), none, none, none, none⟩ }
  else if kind = xsoSocket then
    some { s with cur := { s.cur with xso := some (Xsocket.ofBytes p) } }
  else if kind = xsoRcvbuf then
    some { s with cur := { s.cur with rcv := some (Xsockbuf.ofBytes p) } }
  else if kind = xsoSndbuf then
    some { s with cur := { s.cur with snd := some (Xsockbuf.ofBytes p) } }
  else if kind = xsoTcpcb then
    some { s with cur := { s.cur with xt := some (Xtcpcb.ofBytes p) } }
  else if kind = xsoStats then some s
  else none

def pcbHeader (v6 : Bool) : List UInt8 :=
  if v6 then
    cstr ("  sl  local_address                         " ++
      "remote_address                        st tx_queue rx_queue tr" ++
      " tm->when retrnsmt   uid  timeout inode\n")
  else
    cstr ("  sl  local_address rem_address   st tx_queue rx_queue tr" ++
      " tm->when retrnsmt   uid  timeout inode\n")

def pcbInit (wantVflag : UInt8) : PcbState :=
  ⟨⟨none, none, none, none, none⟩, 0, pcbHeader (wantVflag == inpIpv6)⟩

/-- `build_net_pcb_blob`: `fetched` is the length of the stream that the sysctl gave and the
memory that holds it, if it gave one. -/
def buildNetPcbBlob (wantVflag : UInt8) (isTcp : Bool) (fetched : Option (ℕ × List UInt8)) :
    List UInt8 :=
  match fetched with
  | none => (pcbInit wantVflag).out
  | some (len, base) =>
    if len < sizeofXinpgen then (pcbInit wantVflag).out
    else
      -- the last socket has none behind it that would flush it
      (emitRecord wantVflag isTcp
        (walkStream (pcbStep wantVflag isTcp) len base (pcbInit wantVflag))).out

/-! ## Sockets -/

/-- The blocks of a socket. -/
structure InetSocket where
  inpcb : Block xsoInpcb sizeofXinpcb
  socket : Block xsoSocket sizeofXsocket
  rcvbuf : Block xsoRcvbuf sizeofXsockbuf
  sndbuf : Block xsoSndbuf sizeofXsockbuf
  stats : Block xsoStats 8
  tcpcb : Option (Block xsoTcpcb sizeofXtcpcb)

namespace InetSocket

def tcpcbBytes (s : InetSocket) : List UInt8 := (s.tcpcb.map Block.bytes).getD []

def bytes (s : InetSocket) : List UInt8 :=
  s.inpcb.bytes ++ (s.socket.bytes ++ (s.rcvbuf.bytes ++ (s.sndbuf.bytes ++ (s.stats.bytes ++
    s.tcpcbBytes))))

def xi (s : InetSocket) : Xinpcb := Xinpcb.ofBytes s.inpcb.bytes

/-- What its own blocks say about a socket. -/
def record (s : InetSocket) : PcbRec where
  xi := some s.xi
  xso := some (Xsocket.ofBytes s.socket.bytes)
  xt := s.tcpcb.map fun b => Xtcpcb.ofBytes b.bytes
  rcv := some (Xsockbuf.ofBytes s.rcvbuf.bytes)
  snd := some (Xsockbuf.ofBytes s.sndbuf.bytes)

def wanted (wantVflag : UInt8) (s : InetSocket) : Bool := s.xi.inpVflag &&& wantVflag != 0

def row (wantVflag : UInt8) (isTcp : Bool) (sl : ℕ) (s : InetSocket) : List UInt8 :=
  pcbRowHead (wantVflag == inpIpv6) sl s.xi ++ pcbRowTail (pcbColumns isTcp s.xi s.record)

end InetSocket

/-- The rows of some sockets: those of the wanted family, numbered from 0. -/
def pcbRows (wantVflag : UInt8) (isTcp : Bool) (sockets : List InetSocket) : List UInt8 :=
  (sockets.filter (InetSocket.wanted wantVflag)).zipIdx.flatMap fun x => x.1.row wantVflag isTcp x.2

/-! ## The walk over the sockets -/

theorem Xinpcb.ofBytes_append {kind : ℕ} (b : Block kind sizeofXinpcb) (rest : List UInt8) :
    Xinpcb.ofBytes (b.bytes ++ rest) = Xinpcb.ofBytes b.bytes := by
  have hfield : ∀ w off, off + w ≤ 104 → fieldAt w off (b.bytes ++ rest) = fieldAt w off b.bytes :=
    fun w off h => b.fieldAt_append h rest
  simp only [Xinpcb.ofBytes, InAddr.ofBytes, u8At, u16At, u32At, hfield, Nat.reduceAdd,
    Nat.reduceLeDiff]

theorem Xsocket.ofBytes_append {kind : ℕ} (b : Block kind sizeofXsocket) (rest : List UInt8) :
    Xsocket.ofBytes (b.bytes ++ rest) = Xsocket.ofBytes b.bytes := by
  have hfield : ∀ w off, off + w ≤ 104 → fieldAt w off (b.bytes ++ rest) = fieldAt w off b.bytes :=
    fun w off h => b.fieldAt_append h rest
  simp only [Xsocket.ofBytes, u16At, u32At, hfield, Nat.reduceAdd, Nat.reduceLeDiff]

theorem Xsockbuf.ofBytes_append {kind : ℕ} (b : Block kind sizeofXsockbuf) (rest : List UInt8) :
    Xsockbuf.ofBytes (b.bytes ++ rest) = Xsockbuf.ofBytes b.bytes := by
  rw [Xsockbuf.ofBytes, Xsockbuf.ofBytes, u32At, u32At, b.fieldAt_append (by decide)]

theorem Xtcpcb.ofBytes_append {kind : ℕ} (b : Block kind sizeofXtcpcb) (rest : List UInt8) :
    Xtcpcb.ofBytes (b.bytes ++ rest) = Xtcpcb.ofBytes b.bytes := by
  rw [Xtcpcb.ofBytes, Xtcpcb.ofBytes, u32At, u32At, b.fieldAt_append (by decide)]

section Walk

variable (wantVflag : UInt8) (isTcp : Bool)

/-- A socket flushes the record before it, and leaves its own. -/
def noteSocket (st : PcbState) (s : InetSocket) : PcbState :=
  { emitRecord wantVflag isTcp st with cur := s.record }

theorem walkBlocks_inetSocket (s : InetSocket) (left : ℕ) (rest : List UInt8) (st : PcbState) :
    walkBlocks (pcbStep wantVflag isTcp) (s.bytes.length + left) (s.bytes ++ rest) st =
      walkBlocks (pcbStep wantVflag isTcp) left rest (noteSocket wantVflag isTcp st s) := by
  -- what every block does to the state
  have hinpcb : ∀ p st, pcbStep wantVflag isTcp xsoInpcb p st =
      some { emitRecord wantVflag isTcp st with
        cur := ⟨some (Xinpcb.ofBytes p), none, none, none, none⟩ } := fun _ _ => rfl
  have hsocket : ∀ p st, pcbStep wantVflag isTcp xsoSocket p st =
      some { st with cur := { st.cur with xso := some (Xsocket.ofBytes p) } } := fun _ _ => rfl
  have hrcvbuf : ∀ p st, pcbStep wantVflag isTcp xsoRcvbuf p st =
      some { st with cur := { st.cur with rcv := some (Xsockbuf.ofBytes p) } } := fun _ _ => rfl
  have hsndbuf : ∀ p st, pcbStep wantVflag isTcp xsoSndbuf p st =
      some { st with cur := { st.cur with snd := some (Xsockbuf.ofBytes p) } } := fun _ _ => rfl
  have htcpcb : ∀ p st, pcbStep wantVflag isTcp xsoTcpcb p st =
      some { st with cur := { st.cur with xt := some (Xtcpcb.ofBytes p) } } := fun _ _ => rfl
  have hstats : ∀ p st, pcbStep wantVflag isTcp xsoStats p st = some st := fun _ _ => rfl
  simp only [InetSocket.bytes, List.length_append, Nat.add_assoc, List.append_assoc]
  rw [s.inpcb.walkBlocks_bytes (by decide), hinpcb]
  dsimp only
  rw [s.socket.walkBlocks_bytes (by decide), hsocket]
  dsimp only
  rw [s.rcvbuf.walkBlocks_bytes (by decide), hrcvbuf]
  dsimp only
  rw [s.sndbuf.walkBlocks_bytes (by decide), hsndbuf]
  dsimp only
  rw [s.stats.walkBlocks_bytes (by decide), hstats]
  dsimp only
  rw [Xinpcb.ofBytes_append, Xsocket.ofBytes_append, Xsockbuf.ofBytes_append,
    Xsockbuf.ofBytes_append]
  cases htcp : s.tcpcb with
  | none =>
    simp only [InetSocket.tcpcbBytes, noteSocket, InetSocket.record, htcp, Option.map_none,
      Option.getD_none, List.length_nil, Nat.zero_add, List.nil_append]
    rfl
  | some b =>
    simp only [InetSocket.tcpcbBytes, noteSocket, InetSocket.record, htcp, Option.map_some,
      Option.getD_some]
    rw [b.walkBlocks_bytes (by decide), htcpcb, Xtcpcb.ofBytes_append]
    rfl

/-- What is printed for the record of a socket. -/
theorem pcbEmitted_record (sl : ℕ) (s : InetSocket) :
    pcbEmitted wantVflag isTcp sl s.record =
      if s.wanted wantVflag then s.row wantVflag isTcp sl else [] := by
  simp only [pcbEmitted, InetSocket.record, InetSocket.wanted, bne_iff_ne]
  rfl

theorem pcbRows_concat (sockets : List InetSocket) (s : InetSocket) :
    pcbRows wantVflag isTcp (sockets ++ [s]) = pcbRows wantVflag isTcp sockets ++
      pcbEmitted wantVflag isTcp (sockets.filter (InetSocket.wanted wantVflag)).length
        s.record := by
  rw [pcbEmitted_record, pcbRows, List.filter_append, List.zipIdx_append, List.flatMap_append,
    Nat.zero_add]
  by_cases hwanted : s.wanted wantVflag = true
  · rw [if_pos hwanted, List.filter_cons_of_pos hwanted, List.filter_nil, List.zipIdx_singleton,
      List.flatMap_singleton]
    rfl
  · rw [if_neg hwanted, List.filter_cons_of_neg hwanted]
    rfl

/-- Flushing after some sockets completes their rows. -/
theorem emitRecord_foldl (sockets : List InetSocket) :
    (emitRecord wantVflag isTcp
        (sockets.foldl (noteSocket wantVflag isTcp) (pcbInit wantVflag))).sl =
      (sockets.filter (InetSocket.wanted wantVflag)).length ∧
    (emitRecord wantVflag isTcp
        (sockets.foldl (noteSocket wantVflag isTcp) (pcbInit wantVflag))).out =
      pcbHeader (wantVflag == inpIpv6) ++ pcbRows wantVflag isTcp sockets := by
  induction sockets using List.reverseRecOn with
  | nil => exact ⟨rfl, rfl⟩
  | append_singleton sockets s ih =>
    rw [List.foldl_append, List.foldl_cons, List.foldl_nil]
    constructor
    · rw [List.filter_append, List.length_append, ← ih.1]
      show (if s.wanted wantVflag then _ else _) = _
      by_cases hwanted : s.wanted wantVflag = true
      · rw [if_pos hwanted, List.filter_cons_of_pos hwanted]
        rfl
      · rw [if_neg hwanted, List.filter_cons_of_neg hwanted]
        rfl
    · rw [pcbRows_concat, ← List.append_assoc, ← ih.2, ← ih.1]
      rfl

/-- The state when all sockets were walked over: the row of the last one is still to come. -/
theorem foldl_noteSocket_concat (sockets : List InetSocket) (s : InetSocket) :
    (sockets ++ [s]).foldl (noteSocket wantVflag isTcp) (pcbInit wantVflag) =
      ⟨s.record, (sockets.filter (InetSocket.wanted wantVflag)).length,
        pcbHeader (wantVflag == inpIpv6) ++ pcbRows wantVflag isTcp sockets⟩ := by
  rw [List.foldl_append, List.foldl_cons, List.foldl_nil, noteSocket,
    (emitRecord_foldl wantVflag isTcp sockets).1, (emitRecord_foldl wantVflag isTcp sockets).2]

theorem buildNetPcbBlob_eq (l : Pcblist InetSocket) (slack : List UInt8) {st : PcbState}
    (hst : l.sockets.foldl (noteSocket wantVflag isTcp) (pcbInit wantVflag) = st) :
    buildNetPcbBlob wantVflag isTcp
        (some ((l.bytes InetSocket.bytes).length, l.bytes InetSocket.bytes ++ slack)) =
      (emitRecord wantVflag isTcp
        ((pcbStep wantVflag isTcp l.sockets.length (l.trail.bytes ++ slack) st).getD st)).out := by
  have hlen : ¬ (l.bytes InetSocket.bytes).length < sizeofXinpgen := by
    rw [Pcblist.bytes, List.length_append, l.lead.length_bytes, sizeofXinpgen]
    omega
  simp only [buildNetPcbBlob, if_neg hlen]
  rw [walkStream_eq InetSocket.bytes (walkBlocks_inetSocket wantVflag isTcp), hst]

end Walk

/-! ## The generation record at the end -/

theorem length_hexWord (x : UInt32) : (hexField true 8 x.toNat).length = 8 :=
  Lib.length_hexField (by decide) x.toNat_lt

theorem length_hexByte (x : UInt8) : (hexField true 2 x.toNat).length = 2 :=
  Lib.length_hexField (by decide) x.toNat_lt

/-- A column of a fixed width is read back, whatever follows it. -/
theorem hexWord_append_inj {x y : UInt32} {r r' : List UInt8}
    (h : hexField true 8 x.toNat ++ r = hexField true 8 y.toNat ++ r') : x = y ∧ r = r' := by
  rcases List.append_inj h ((length_hexWord x).trans (length_hexWord y).symm) with ⟨hfield, hrest⟩
  exact ⟨UInt32.toNat_inj.mp (Lib.hexField_inj hfield), hrest⟩

theorem hexByte_append_inj {x y : UInt8} {r r' : List UInt8}
    (h : hexField true 2 x.toNat ++ r = hexField true 2 y.toNat ++ r') : x = y ∧ r = r' := by
  rcases List.append_inj h ((length_hexByte x).trans (length_hexByte y).symm) with ⟨hfield, hrest⟩
  exact ⟨UInt8.toNat_inj.mp (Lib.hexField_inj hfield), hrest⟩

/-- Rows are told apart by their columns. -/
theorem pcbRowTail_inj {c d : PcbColumns} (h : pcbRowTail c = pcbRowTail d) : c = d := by
  -- column by column; the user id has no fixed width, but what follows it is the same
  rcases hexByte_append_inj h with ⟨hst, h⟩
  rcases hexWord_append_inj (List.append_cancel_left h) with ⟨htxq, h⟩
  rcases hexWord_append_inj (List.append_cancel_left h) with ⟨hrxq, h⟩
  have huid := List.append_cancel_right (List.append_cancel_left h)
  have huid := UInt32.toNat_inj.mp (Lib.decField_inj huid)
  cases c
  cases d
  simp only [PcbColumns.mk.injEq]
  exact ⟨hst, htxq, hrxq, huid⟩

theorem pcbEmitted_eq_iff {wantVflag : UInt8} {isTcp : Bool} {sl : ℕ} {r : PcbRec} {s : InetSocket}
    (hr : r.xi = some s.xi) :
    pcbEmitted wantVflag isTcp sl r = pcbEmitted wantVflag isTcp sl s.record ↔
      (s.wanted wantVflag = true →
        pcbColumns isTcp s.xi r = pcbColumns isTcp s.xi s.record) := by
  have hxi : s.record.xi = some s.xi := rfl
  simp only [pcbEmitted, hr, hxi, InetSocket.wanted, bne_iff_ne]
  by_cases hwanted : s.xi.inpVflag &&& wantVflag ≠ 0
  · rw [if_pos hwanted, if_pos hwanted, List.append_cancel_left_eq]
    constructor
    · intro h _
      exact pcbRowTail_inj h
    · intro h
      rw [h hwanted]
  · rw [if_neg hwanted, if_neg hwanted]
    exact ⟨fun _ h => absurd h hwanted, fun _ => rfl⟩

theorem pcbEmitted_eq_nil_iff {wantVflag : UInt8} {isTcp : Bool} {sl : ℕ} {xi : Xinpcb} :
    pcbEmitted wantVflag isTcp sl ⟨some xi, none, none, none, none⟩ = [] ↔
      xi.inpVflag &&& wantVflag = 0 := by
  have hne : ∀ c, pcbRowTail c ≠ [] := by
    intro c h
    have hst := (List.append_eq_nil_iff.mp h).1
    have hlen := length_hexByte c.st
    rw [hst] at hlen
    exact absurd hlen (by decide)
  simp only [pcbEmitted]
  split
  · rename_i hwanted
    refine ⟨fun h => absurd (List.append_eq_nil_iff.mp h).2 (hne _), fun h => absurd h hwanted⟩
  · rename_i hwanted
    exact ⟨fun _ => not_not.mp hwanted, fun _ => rfl⟩

/-- When the generation record at the end, with the memory behind it at `p`, does no harm
although its count is the number of a kind: it is not taken for a control block of the wanted
family, and what is read of it for the last socket is what the socket has there itself. -/
def PcbTrailHarmless (wantVflag : UInt8) (isTcp : Bool) (sockets : List InetSocket)
    (p : List UInt8) : Prop :=
  (sockets.length = xsoInpcb → (Xinpcb.ofBytes p).inpVflag &&& wantVflag = 0) ∧
    ∀ s, sockets.getLast? = some s → s.wanted wantVflag = true →
      (sockets.length = xsoSocket →
        (Xsocket.ofBytes p).soUid = (Xsocket.ofBytes s.socket.bytes).soUid) ∧
      (sockets.length = xsoRcvbuf → Xsockbuf.ofBytes p = Xsockbuf.ofBytes s.rcvbuf.bytes) ∧
      (sockets.length = xsoSndbuf → Xsockbuf.ofBytes p = Xsockbuf.ofBytes s.sndbuf.bytes) ∧
      (sockets.length = xsoTcpcb → isTcp = true →
        tcpState (some (Xtcpcb.ofBytes p)) = tcpState s.record.xt)

/-- What is left of a record when the generation record was taken for a block of its. -/
def PcbRec.misread (kind : ℕ) (p : List UInt8) (r : PcbRec) : PcbRec :=
  if kind = xsoSocket then { r with xso := some (Xsocket.ofBytes p) }
  else if kind = xsoRcvbuf then { r with rcv := some (Xsockbuf.ofBytes p) }
  else if kind = xsoSndbuf then { r with snd := some (Xsockbuf.ofBytes p) }
  else if kind = xsoTcpcb then { r with xt := some (Xtcpcb.ofBytes p) }
  else r

/-- A generation record that was taken for a control block may get a row of its own. -/
theorem emitRecord_inpcb (wantVflag : UInt8) (isTcp : Bool) (p : List UInt8) (st : PcbState) :
    (emitRecord wantVflag isTcp ((pcbStep wantVflag isTcp xsoInpcb p st).getD st)).out =
      (emitRecord wantVflag isTcp st).out ++ pcbEmitted wantVflag isTcp
        (emitRecord wantVflag isTcp st).sl ⟨some (Xinpcb.ofBytes p), none, none, none, none⟩ :=
  rfl

theorem pcbStep_misread (wantVflag : UInt8) (isTcp : Bool) {kind : ℕ} (hkind : kind ≠ xsoInpcb)
    (p : List UInt8) (st : PcbState) :
    (pcbStep wantVflag isTcp kind p st).getD st = { st with cur := st.cur.misread kind p } := by
  rw [pcbStep, if_neg hkind, PcbRec.misread]
  split_ifs <;> rfl

theorem misread_xi (kind : ℕ) (p : List UInt8) (r : PcbRec) : (r.misread kind p).xi = r.xi := by
  rw [PcbRec.misread]
  split_ifs <;> rfl

theorem pcbColumns_misread_iff (isTcp : Bool) (kind : ℕ) (p : List UInt8) (s : InetSocket) :
    pcbColumns isTcp s.xi (s.record.misread kind p) = pcbColumns isTcp s.xi s.record ↔
      (kind = xsoSocket → (Xsocket.ofBytes p).soUid = (Xsocket.ofBytes s.socket.bytes).soUid) ∧
      (kind = xsoRcvbuf → Xsockbuf.ofBytes p = Xsockbuf.ofBytes s.rcvbuf.bytes) ∧
      (kind = xsoSndbuf → Xsockbuf.ofBytes p = Xsockbuf.ofBytes s.sndbuf.bytes) ∧
      (kind = xsoTcpcb → isTcp = true →
        tcpState (some (Xtcpcb.ofBytes p)) = tcpState s.record.xt) := by
  have hcc : ∀ a b : Xsockbuf, a.sbCc = b.sbCc ↔ a = b := by
    intro a b
    cases a
    cases b
    simp only [Xsockbuf.mk.injEq]
  rw [PcbRec.misread]
  -- the kinds are five different numbers
  split_ifs with hsocket hrcvbuf hsndbuf htcpcb
  · subst hsocket
    simp [pcbColumns, InetSocket.record, xsoSocket, xsoRcvbuf, xsoSndbuf, xsoTcpcb]
  · subst hrcvbuf
    simp [pcbColumns, InetSocket.record, xsoSocket, xsoRcvbuf, xsoSndbuf, xsoTcpcb, hcc]
  · subst hsndbuf
    simp [pcbColumns, InetSocket.record, xsoSocket, xsoRcvbuf, xsoSndbuf, xsoTcpcb, hcc]
  · subst htcpcb
    cases isTcp <;>
      simp [pcbColumns, InetSocket.record, xsoSocket, xsoRcvbuf, xsoSndbuf, xsoTcpcb]
  · simp [hsocket, hrcvbuf, hsndbuf, htcpcb]

/-- The table is right if and only if the generation record at the end does no harm. -/
theorem buildNetPcbBlob_iff (wantVflag : UInt8) (isTcp : Bool) (l : Pcblist InetSocket)
    (slack : List UInt8) :
    buildNetPcbBlob wantVflag isTcp
        (some ((l.bytes InetSocket.bytes).length, l.bytes InetSocket.bytes ++ slack)) =
      pcbHeader (wantVflag == inpIpv6) ++ pcbRows wantVflag isTcp l.sockets ↔
    PcbTrailHarmless wantVflag isTcp l.sockets (l.trail.bytes ++ slack) := by
  rw [buildNetPcbBlob_eq wantVflag isTcp l slack rfl]
  generalize l.trail.bytes ++ slack = p
  generalize l.sockets = sockets
  by_cases hkind : sockets.length = xsoInpcb
  · -- one more control block
    rw [hkind, emitRecord_inpcb, (emitRecord_foldl wantVflag isTcp sockets).2,
      List.append_right_eq_self, pcbEmitted_eq_nil_iff, PcbTrailHarmless, hkind]
    constructor
    · intro h
      refine ⟨fun _ => h, fun s' _ _ => ?_⟩
      exact ⟨fun h => absurd h (by decide), fun h => absurd h (by decide),
        fun h => absurd h (by decide), fun h => absurd h (by decide)⟩
    · intro h
      exact h.1 rfl
  · rcases List.eq_nil_or_concat' sockets with rfl | ⟨init, s, rfl⟩
    · -- no socket: 0 is not a kind
      refine ⟨fun _ => ⟨fun h => absurd h hkind, fun s h => nomatch h⟩, fun _ => ?_⟩
      exact (emitRecord_foldl wantVflag isTcp []).2
    · rw [foldl_noteSocket_concat, pcbRows_concat, PcbTrailHarmless, List.getLast?_concat,
        pcbStep_misread wantVflag isTcp hkind, emitRecord, List.append_assoc,
        List.append_cancel_left_eq, List.append_cancel_left_eq,
        pcbEmitted_eq_iff (misread_xi _ p s.record), pcbColumns_misread_iff]
      constructor
      · intro h
        refine ⟨fun heq => absurd heq hkind, ?_⟩
        intro s' hs'
        cases hs'
        exact h
      · intro h
        exact h.2 s rfl

end ProcFS.Data
