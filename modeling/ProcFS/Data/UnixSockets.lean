import ProcFS.Data.InetSockets

/-!
# ProcFS.Data.UnixSockets — the table of the local sockets

`build_net_unix_blob` walks over two streams, one of the stream sockets and one of the datagram
sockets, and prints a row for each socket. The count at the end of a stream is taken for a
kind here too: a single socket gets its reference count, type and state from the generation
record, and behind 512 sockets there is a row for the generation record itself.

* `emitUnix_foldl`: the rows after some sockets.
* `buildNetUnixBlob_iff`: when the table is right.
* `socketTables_rows_iff`: when both tables of sockets are.
-/

namespace ProcFS.Data

open Lib (fieldAt u64At hexField decField untilNul)

/-! ## Rows -/

def xsoUnpcb : ℕ := 0x200

/-- `struct xunpcb_n`, as far as it is read. -/
structure Xunpcb where
  xunpUnpp : UInt64
  xunpIno : UInt64
  /-- `xu_au.xuu_addr.sun_path`, of 104 bytes. -/
  sunPath : List UInt8
deriving DecidableEq, Repr

def Xunpcb.ofBytes (p : List UInt8) : Xunpcb := ⟨u64At 8 p, u64At 24 p, (p.drop 78).take 104⟩

def sizeofXunpcb : ℕ := 588

/-- The path of a row, in a buffer of 128 bytes. -/
def Xunpcb.path (xu : Xunpcb) : List UInt8 := (untilNul xu.sunPath).take 127

/-- The columns that come from the socket. -/
structure UnixColumns where
  refcnt : UInt32
  flags : UInt32
  type : UInt32
  st : UInt8
deriving DecidableEq, Repr

def soAcceptconn : UInt32 := 0x0002

def procfsSsIsconnected : UInt16 := 0x0002

def unixColumns (xso : Option Xsocket) : UnixColumns :=
  let listen := xso.any fun so => so.soOptions &&& soAcceptconn != 0
  { refcnt := (xso.map Xsocket.soUsecount).getD 0
    flags := if listen then 0x00010000 else 0
    -- a negative `short` is extended
    type := (xso.map fun so => so.soType.toInt16.toInt32.toUInt32).getD 0
    st := if !listen && xso.any fun so => so.soState &&& procfsSsIsconnected != 0 then 3 else 1 }

def unixRowHead (xu : Xunpcb) : List UInt8 := hexField false 16 xu.xunpUnpp.toNat ++ cstr ": "

def unixRowEnd (xu : Xunpcb) : List UInt8 :=
  cstr " " ++ decField 5 xu.xunpIno.toNat ++ (if xu.path = [] then [] else cstr " " ++ xu.path) ++
    cstr "\n"

def unixRow (xu : Xunpcb) (c : UnixColumns) : List UInt8 :=
  unixRowHead xu ++ (hexField true 8 c.refcnt.toNat ++ (cstr " " ++ hexField true 8 0 ++ cstr " " ++
    (hexField true 8 c.flags.toNat ++ (cstr " " ++ (hexField true 4 c.type.toNat ++
      (cstr " " ++ (hexField true 2 c.st.toNat ++ unixRowEnd xu)))))))

/-! ## The builder -/

structure UnixState where
  xu : Option Xunpcb
  xso : Option Xsocket
  out : List UInt8
deriving DecidableEq, Repr

def emitUnix (s : UnixState) : UnixState :=
  { s with out := s.out ++ s.xu.elim [] fun xu => unixRow xu (unixColumns s.xso) }

/-- The switch of `build_net_unix_blob`. -/
def unixStep (kind : ℕ) (p : List UInt8) (s : UnixState) : Option UnixState :=
  if kind = xsoUnpcb then some { emitUnix s with xu := some (Xunpcb.ofBytes p), xso := none }
  else if kind = xsoSocket then some { s with xso := some (Xsocket.ofBytes p) }
  else if kind = xsoRcvbuf ∨ kind = xsoSndbuf ∨ kind = xsoStats then some s
  else none

/-- An iteration of the loop over the two sysctls: `fetched` is the length of the stream and
the memory that holds it, if there is one. -/
def unixStream (out : List UInt8) (fetched : Option (ℕ × List UInt8)) : List UInt8 :=
  match fetched with
  | none => out
  | some (len, base) =>
    if len < sizeofXinpgen then out
    else (emitUnix (walkStream unixStep len base ⟨none, none, out⟩)).out

def unixHeader : List UInt8 :=
  cstr ("Num       RefCount Protocol Flags    Type St " ++ "Inode Path\n")

def buildNetUnixBlob (stream dgram : Option (ℕ × List UInt8)) : List UInt8 :=
  [stream, dgram].foldl unixStream unixHeader

/-! ## Sockets -/

/-- The blocks of a local socket. -/
structure UnixSocket where
  unpcb : Block xsoUnpcb sizeofXunpcb
  socket : Block xsoSocket sizeofXsocket
  rcvbuf : Block xsoRcvbuf sizeofXsockbuf
  sndbuf : Block xsoSndbuf sizeofXsockbuf
  stats : Block xsoStats 8

namespace UnixSocket

def bytes (s : UnixSocket) : List UInt8 :=
  s.unpcb.bytes ++ (s.socket.bytes ++ (s.rcvbuf.bytes ++ (s.sndbuf.bytes ++ s.stats.bytes)))

def xu (s : UnixSocket) : Xunpcb := Xunpcb.ofBytes s.unpcb.bytes

def columns (s : UnixSocket) : UnixColumns :=
  unixColumns (some (Xsocket.ofBytes s.socket.bytes))

def row (s : UnixSocket) : List UInt8 := unixRow s.xu s.columns

end UnixSocket

def unixRows (sockets : List UnixSocket) : List UInt8 := sockets.flatMap UnixSocket.row

/-! ## The walk over the sockets -/

theorem Xunpcb.ofBytes_append {kind : ℕ} (b : Block kind sizeofXunpcb) (rest : List UInt8) :
    Xunpcb.ofBytes (b.bytes ++ rest) = Xunpcb.ofBytes b.bytes := by
  have hsize : 588 ≤ b.bytes.length := b.size_le_length
  have hpath : ((b.bytes ++ rest).drop 78).take 104 = (b.bytes.drop 78).take 104 := by
    rw [List.drop_append_of_le_length (by omega),
      List.take_append_of_le_length (by rw [List.length_drop]; omega)]
  rw [Xunpcb.ofBytes, Xunpcb.ofBytes, u64At, u64At, u64At, u64At, b.fieldAt_append (by decide),
    b.fieldAt_append (by decide), hpath]

/-- A socket flushes the one before it, and leaves its own records. -/
def noteUnix (st : UnixState) (s : UnixSocket) : UnixState :=
  ⟨some s.xu, some (Xsocket.ofBytes s.socket.bytes), (emitUnix st).out⟩

theorem walkBlocks_unixSocket (s : UnixSocket) (left : ℕ) (rest : List UInt8) (st : UnixState) :
    walkBlocks unixStep (s.bytes.length + left) (s.bytes ++ rest) st =
      walkBlocks unixStep left rest (noteUnix st s) := by
  -- what every block does to the state
  have hunpcb : ∀ p st, unixStep xsoUnpcb p st =
      some { emitUnix st with xu := some (Xunpcb.ofBytes p), xso := none } := fun _ _ => rfl
  have hsocket : ∀ p st, unixStep xsoSocket p st =
      some { st with xso := some (Xsocket.ofBytes p) } := fun _ _ => rfl
  have hrcvbuf : ∀ p st, unixStep xsoRcvbuf p st = some st := fun _ _ => rfl
  have hsndbuf : ∀ p st, unixStep xsoSndbuf p st = some st := fun _ _ => rfl
  have hstats : ∀ p st, unixStep xsoStats p st = some st := fun _ _ => rfl
  simp only [UnixSocket.bytes, List.length_append, Nat.add_assoc, List.append_assoc]
  rw [s.unpcb.walkBlocks_bytes (by decide), hunpcb]
  dsimp only
  rw [s.socket.walkBlocks_bytes (by decide), hsocket]
  dsimp only
  rw [s.rcvbuf.walkBlocks_bytes (by decide), hrcvbuf]
  dsimp only
  rw [s.sndbuf.walkBlocks_bytes (by decide), hsndbuf]
  dsimp only
  rw [s.stats.walkBlocks_bytes (by decide), hstats, Xunpcb.ofBytes_append, Xsocket.ofBytes_append]
  rfl

/-- Flushing after some sockets completes their rows. -/
theorem emitUnix_foldl (sockets : List UnixSocket) (out : List UInt8) :
    (emitUnix (sockets.foldl noteUnix ⟨none, none, out⟩)).out = out ++ unixRows sockets := by
  induction sockets using List.reverseRecOn with
  | nil => rfl
  | append_singleton sockets s ih =>
    rw [List.foldl_append, List.foldl_cons, List.foldl_nil, unixRows, List.flatMap_append,
      List.flatMap_singleton, ← List.append_assoc]
    exact congrArg (· ++ s.row) ih

/-! ## The generation record at the end -/

/-- When the generation record at the end of a stream, with the memory behind it at `p`, does
no harm: it is not taken for a control block, and where it is taken for a socket, it says the
same as that socket. -/
def UnixTrailHarmless (sockets : List UnixSocket) (p : List UInt8) : Prop :=
  sockets.length ≠ xsoUnpcb ∧
    (sockets.length = xsoSocket →
      ∀ s ∈ sockets, unixColumns (some (Xsocket.ofBytes p)) = s.columns)

/-- The text for a stream that ends in a generation record at `p`. -/
def unixText (sockets : List UnixSocket) (p : List UInt8) : List UInt8 :=
  if sockets.length = xsoUnpcb then
    unixRows sockets ++ unixRow (Xunpcb.ofBytes p) (unixColumns none)
  else if sockets.length = xsoSocket then
    sockets.flatMap fun s => unixRow s.xu (unixColumns (some (Xsocket.ofBytes p)))
  else unixRows sockets

theorem unixStream_eq (out : List UInt8) (l : Pcblist UnixSocket) (slack : List UInt8) :
    unixStream out (some ((l.bytes UnixSocket.bytes).length, l.bytes UnixSocket.bytes ++ slack)) =
      out ++ unixText l.sockets (l.trail.bytes ++ slack) := by
  have hlen : ¬ (l.bytes UnixSocket.bytes).length < sizeofXinpgen := by
    rw [Pcblist.bytes, List.length_append, l.lead.length_bytes, sizeofXinpgen]
    omega
  simp only [unixStream, if_neg hlen]
  rw [walkStream_eq UnixSocket.bytes walkBlocks_unixSocket, unixText]
  generalize l.trail.bytes ++ slack = p
  generalize l.sockets = sockets
  have hrows := emitUnix_foldl sockets out
  by_cases hkind : sockets.length = xsoUnpcb
  · -- a row for the generation record
    rw [if_pos hkind, hkind, ← List.append_assoc, ← hrows]
    rfl
  · rw [if_neg hkind]
    by_cases hsocket : sockets.length = xsoSocket
    · rcases List.length_eq_one_iff.mp hsocket with ⟨s, rfl⟩
      rw [if_pos hsocket, List.flatMap_singleton]
      show out ++ [] ++ unixRow s.xu (unixColumns (some (Xsocket.ofBytes p))) = _
      rw [List.append_nil]
    · -- the other kinds do not change the state
      have hstep : ∀ st, (unixStep sockets.length p st).getD st = st := by
        intro st
        rw [unixStep, if_neg hkind, if_neg hsocket]
        split_ifs <;> rfl
      rw [hstep, hrows, if_neg hsocket]

/-- Rows of one control block are told apart by their columns, whatever follows them. -/
theorem unixRow_append_inj {xu : Xunpcb} {c d : UnixColumns} {x y : List UInt8}
    (h : unixRow xu c ++ x = unixRow xu d ++ y) : c = d ∧ x = y := by
  simp only [unixRow, List.append_assoc] at h
  rcases hexWord_append_inj (List.append_cancel_left h) with ⟨hrefcnt, h⟩
  -- the protocol, between two blanks
  have h := List.append_cancel_left (List.append_cancel_left (List.append_cancel_left h))
  rcases hexWord_append_inj h with ⟨hflags, h⟩
  -- the type may be wider than its column, but a blank follows it
  rcases Lib.hexField_append_inj (List.append_cancel_left h) with ⟨htype, h⟩
  have h : hexField true 2 c.st.toNat ++ (unixRowEnd xu ++ x) =
      hexField true 2 d.st.toNat ++ (unixRowEnd xu ++ y) := h
  rcases hexByte_append_inj h with ⟨hst, h⟩
  have htype := UInt32.toNat_inj.mp (Lib.hexField_inj htype)
  refine ⟨?_, List.append_cancel_left h⟩
  cases c
  cases d
  simp only [UnixColumns.mk.injEq]
  exact ⟨hrefcnt, hflags, htype, hst⟩

/-- The columns of a row do not change its length much. -/
theorem length_unixRow_le (xu : Xunpcb) (c d : UnixColumns) :
    (unixRow xu c).length ≤ (unixRow xu d).length + 4 := by
  -- only the type has no fixed width
  have htype : ∀ x : UInt32, 4 ≤ (hexField true 4 x.toNat).length ∧
      (hexField true 4 x.toNat).length ≤ 8 := by
    intro x
    have hdigits := @Lib.length_digits_le true 8 x.toNat (by decide) x.toNat_lt
    rw [hexField, Lib.length_padLeft]
    omega
  have hc := htype c.type
  have hd := htype d.type
  simp only [unixRow, List.length_append, length_hexWord, length_hexByte]
  omega

theorem lt_length_unixRow (xu : Xunpcb) (c : UnixColumns) : 4 < (unixRow xu c).length := by
  simp only [unixRow, List.length_append, length_hexWord]
  omega

theorem length_unixRows_le (sockets : List UnixSocket) (p : List UInt8) :
    (unixRows sockets).length ≤ (unixText sockets p).length + 4 := by
  rw [unixText]
  split_ifs with hkind hsocket
  · rw [List.length_append]
    omega
  · rcases List.length_eq_one_iff.mp hsocket with ⟨s, rfl⟩
    rw [unixRows, List.flatMap_singleton, List.flatMap_singleton]
    exact length_unixRow_le s.xu s.columns _
  · exact Nat.le_add_right _ _

theorem unixText_of_harmless {sockets : List UnixSocket} {p : List UInt8}
    (h : UnixTrailHarmless sockets p) : unixText sockets p = unixRows sockets := by
  rw [unixText, if_neg h.1]
  split_ifs with hsocket
  · rcases List.length_eq_one_iff.mp hsocket with ⟨s, rfl⟩
    rw [unixRows, List.flatMap_singleton, List.flatMap_singleton,
      h.2 rfl s (List.mem_singleton_self s), UnixSocket.row]
  · rfl

/-- A text that is right, together with what follows it, is right for itself. -/
theorem unixText_append_inj {sockets : List UnixSocket} {p x y : List UInt8}
    (hlen : y.length ≤ x.length + 4) (h : unixText sockets p ++ x = unixRows sockets ++ y) :
    UnixTrailHarmless sockets p ∧ x = y := by
  rw [unixText] at h
  split_ifs at h with hkind hsocket
  · -- the row of the generation record is too long
    rw [List.append_assoc] at h
    have hlength := congrArg List.length (List.append_cancel_left h)
    have hrow := lt_length_unixRow (Xunpcb.ofBytes p) (unixColumns none)
    rw [List.length_append] at hlength
    omega
  · rcases List.length_eq_one_iff.mp hsocket with ⟨s, rfl⟩
    rw [unixRows, List.flatMap_singleton, List.flatMap_singleton] at h
    rcases unixRow_append_inj h with ⟨hcolumns, hrest⟩
    refine ⟨⟨hkind, fun _ s' hs' => ?_⟩, hrest⟩
    rw [List.mem_singleton.mp hs']
    exact hcolumns
  · exact ⟨⟨hkind, fun hone => absurd hone hsocket⟩, List.append_cancel_left h⟩

/-- The table is right if and only if neither generation record at the end of a stream does
harm. -/
theorem buildNetUnixBlob_iff (stream dgram : Pcblist UnixSocket) (slack slack' : List UInt8) :
    buildNetUnixBlob
        (some ((stream.bytes UnixSocket.bytes).length, stream.bytes UnixSocket.bytes ++ slack))
        (some ((dgram.bytes UnixSocket.bytes).length, dgram.bytes UnixSocket.bytes ++ slack')) =
      unixHeader ++ unixRows stream.sockets ++ unixRows dgram.sockets ↔
    UnixTrailHarmless stream.sockets (stream.trail.bytes ++ slack) ∧
      UnixTrailHarmless dgram.sockets (dgram.trail.bytes ++ slack') := by
  rw [buildNetUnixBlob, List.foldl_cons, List.foldl_cons, List.foldl_nil, unixStream_eq,
    unixStream_eq, List.append_assoc, List.append_assoc, List.append_cancel_left_eq]
  constructor
  · intro h
    rcases unixText_append_inj (length_unixRows_le _ _) h with ⟨hstream, h⟩
    have h := congrArg (· ++ []) h
    exact ⟨hstream, (unixText_append_inj (Nat.zero_le _) h).1⟩
  · rintro ⟨hstream, hdgram⟩
    rw [unixText_of_harmless hstream, unixText_of_harmless hdgram]

/-! ## Both tables -/

/-- One row for each socket, from its own blocks, if and only if the generation record at the
end of the stream does no harm. In particular the tables are right unless a stream has as many
sockets as a kind of block has for a number. -/
theorem socketTables_rows_iff (wantVflag : UInt8) (isTcp : Bool) (l : Pcblist InetSocket)
    (stream dgram : Pcblist UnixSocket) (slack slack' slack'' : List UInt8) :
    (buildNetPcbBlob wantVflag isTcp
          (some ((l.bytes InetSocket.bytes).length, l.bytes InetSocket.bytes ++ slack)) =
        pcbHeader (wantVflag == inpIpv6) ++ pcbRows wantVflag isTcp l.sockets ↔
      PcbTrailHarmless wantVflag isTcp l.sockets (l.trail.bytes ++ slack)) ∧
    (buildNetUnixBlob
          (some ((stream.bytes UnixSocket.bytes).length, stream.bytes UnixSocket.bytes ++ slack'))
          (some ((dgram.bytes UnixSocket.bytes).length, dgram.bytes UnixSocket.bytes ++ slack'')) =
        unixHeader ++ unixRows stream.sockets ++ unixRows dgram.sockets ↔
      UnixTrailHarmless stream.sockets (stream.trail.bytes ++ slack') ∧
        UnixTrailHarmless dgram.sockets (dgram.trail.bytes ++ slack'')) :=
  ⟨buildNetPcbBlob_iff wantVflag isTcp l slack, buildNetUnixBlob_iff stream dgram slack' slack''⟩

/-- A TCP socket of the v4 family that is closed. -/
def closedSocket : InetSocket where
  inpcb := ⟨List.replicate 36 0 ++ 1 :: List.replicate 59 0, [], by decide, by decide, by decide⟩
  socket := ⟨List.replicate 96 0, [], by decide, by decide, by decide⟩
  rcvbuf := ⟨List.replicate 24 0, [], by decide, by decide, by decide⟩
  sndbuf := ⟨List.replicate 24 0, [], by decide, by decide, by decide⟩
  stats := ⟨[], [], by decide, by decide, by decide⟩
  tcpcb := some ⟨List.replicate 32 0, [], by decide, by decide, by decide⟩

/-- The stream of some closed sockets, in generation 1234. -/
def closedSockets (n : ℕ) (hn : n < 2 ^ 32) : Pcblist InetSocket where
  lead := ⟨UInt32.ofNat n, 1234, 1234⟩
  sockets := List.replicate n closedSocket
  trail := ⟨UInt32.ofNat n, 1234, 1234⟩
  counted := by
    rw [List.length_replicate, UInt32.toNat_ofNat']
    exact Nat.mod_eq_of_lt hn

/-- What `build_net_pcb_blob` makes of some closed sockets. -/
def closedBlob (n : ℕ) (hn : n < 2 ^ 32) : List UInt8 :=
  buildNetPcbBlob inpIpv4 true
    (some (((closedSockets n hn).bytes InetSocket.bytes).length,
      (closedSockets n hn).bytes InetSocket.bytes ++ []))

/-- A local socket without a path. -/
def unboundSocket : UnixSocket where
  unpcb := ⟨List.replicate 580 0, [0, 0, 0, 0], by rw [List.length_replicate]; decide,
    by rw [List.length_replicate]; decide, by rw [List.length_replicate]; rfl⟩
  socket := ⟨List.replicate 96 0, [], by decide, by decide, by decide⟩
  rcvbuf := ⟨List.replicate 24 0, [], by decide, by decide, by decide⟩
  sndbuf := ⟨List.replicate 24 0, [], by decide, by decide, by decide⟩
  stats := ⟨[], [], by decide, by decide, by decide⟩

/-- A stream of two of them. -/
def unboundSockets : Pcblist UnixSocket where
  lead := ⟨2, 1234, 1234⟩
  sockets := [unboundSocket, unboundSocket]
  trail := ⟨2, 1234, 1234⟩
  counted := rfl

/-- Three closed sockets get their rows, and so do twice two local ones. -/
theorem socketTables_rows_three :
    closedBlob 3 (by decide) = pcbHeader false ++ pcbRows inpIpv4 true
        [closedSocket, closedSocket, closedSocket] ∧
      buildNetUnixBlob
          (some ((unboundSockets.bytes UnixSocket.bytes).length,
            unboundSockets.bytes UnixSocket.bytes ++ []))
          (some ((unboundSockets.bytes UnixSocket.bytes).length,
            unboundSockets.bytes UnixSocket.bytes ++ [])) =
        unixHeader ++ unixRows [unboundSocket, unboundSocket] ++
          unixRows [unboundSocket, unboundSocket] := by
  have hunix : UnixTrailHarmless unboundSockets.sockets (unboundSockets.trail.bytes ++ []) :=
    ⟨by decide, fun h => absurd h (by decide)⟩
  rcases socketTables_rows_iff inpIpv4 true (closedSockets 3 (by decide)) unboundSockets
    unboundSockets [] [] [] with ⟨hinet, hlocal⟩
  refine ⟨hinet.mpr ⟨?_, ?_⟩, hlocal.mpr ⟨hunix, hunix⟩⟩
  · intro h
    exact absurd h (by decide)
  · intro s _ _
    exact ⟨fun h => absurd h (by decide), fun h => absurd h (by decide),
      fun h => absurd h (by decide), fun h => absurd h (by decide)⟩

/-- Two sockets: the generation is shown as the receive queue of the second one. -/
theorem socketTables_second_misread :
    closedBlob 2 (by decide) = pcbHeader false ++
        (cstr ("   0: 00000000:0000 00000000:0000 07 00000000:00000000 00:00000000 " ++
          "00000000     0        0 0\n") ++
        cstr ("   1: 00000000:0000 00000000:0000 07 00000000:000004D2 00:00000000 " ++
          "00000000     0        0 0\n")) ∧
      closedBlob 2 (by decide) ≠
        pcbHeader false ++ pcbRows inpIpv4 true [closedSocket, closedSocket] := by
  have hblob : closedBlob 2 (by decide) = _ :=
    buildNetPcbBlob_eq inpIpv4 true (closedSockets 2 (by decide)) []
      (foldl_noteSocket_concat inpIpv4 true [closedSocket] closedSocket)
  rw [hblob]
  constructor
  · decide +kernel
  · decide +kernel

end ProcFS.Data
