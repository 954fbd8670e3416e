import ProcFS.Lib.Bytes
import ProcFS.Lib.Printf
import ProcFS.Types

/-!
# ProcFS.Data.Route — the table of the IPv4 routes

`build_net_route_blob` walks over a dump of the routing socket: messages of a header and the
addresses that a mask in the header selects, each padded to 4 bytes. The kernel cuts the zeros
off the end of a netmask, and the daemon takes every netmask that does not reach to the end of
its address for 0.0.0.0: only netmasks whose last byte is not zero, or that were not cut, are
shown.

* `routeAddrs_get`: the loop over the addresses of a message.
* `shownNetmask_eq_iff`: which netmasks are shown right.
* `buildNetRouteBlob_rows_iff`: when the table is right.
-/

namespace ProcFS.Data

open Lib (leBytes fieldAt u8At u16At u32At hexField)

/-! ## Messages of the routing socket -/

def rtmVersion : UInt8 := 5

def rtfUp : UInt32 := 0x1

def rtfGateway : UInt32 := 0x2

def rtfHost : UInt32 := 0x4

def rtfDynamic : UInt32 := 0x10

def rtfModified : UInt32 := 0x20

def rtfLlinfo : UInt32 := 0x400

def rtfWascloned : UInt32 := 0x20000

def rtaxDst : ℕ := 0

def rtaxGateway : ℕ := 1

def rtaxNetmask : ℕ := 2

def rtaxMax : ℕ := 8

def afInet : UInt8 := 2

/-- `struct rt_msghdr`, as far as it is read. -/
structure RtMsghdr where
  msglen : UInt16
  version : UInt8
  index : UInt16
  flags : UInt32
  addrs : UInt32
deriving DecidableEq, Repr

def RtMsghdr.ofBytes (p : List UInt8) : RtMsghdr :=
  ⟨u16At 0 p, u8At 2 p, u16At 4 p, u32At 8 p, u32At 12 p⟩

def sizeofRtMsghdr : ℕ := 92

/-! ## The builder -/

def procfsSaSize (saLen : UInt8) : ℕ :=
  if saLen = 0 then 4 else 1 + ((saLen.toNat - 1) ||| 3)

/-- The pointers to the addresses of a message, as the memory they point to. -/
structure RouteAddrs where
  dst : Option (List UInt8)
  gw : Option (List UInt8)
  mask : Option (List UInt8)
deriving DecidableEq, Repr

def RouteAddrs.set (r : RouteAddrs) (i : ℕ) (sa : List UInt8) : RouteAddrs :=
  if i = rtaxDst then { r with dst := some sa }
  else if i = rtaxGateway then { r with gw := some sa }
  else if i = rtaxNetmask then { r with mask := some sa }
  else r

/-- The loop over the bits of the mask: `sa` is the memory from the pointer on, of which `left`
bytes lie before `lim`. -/
def routeAddrs (addrs : UInt32) : List ℕ → ℕ → List UInt8 → RouteAddrs → RouteAddrs
  | [], _, _, r => r
  | i :: is, left, sa, r =>
    if addrs.toNat.testBit i then
      if left < 1 then r
      else
        let size := procfsSaSize (u8At 0 sa)
        routeAddrs addrs is (left - size) (sa.drop size) (r.set i sa)
    else routeAddrs addrs is left sa r

def routeRowHead (ifn : List UInt8) (d g fl : UInt32) : List UInt8 :=
  ifn ++ cstr "\t" ++ hexField true 8 d.toNat ++ cstr "\t" ++ hexField true 8 g.toNat ++
    cstr "\t" ++ hexField true 4 fl.toNat ++ cstr "\t0\t0\t0\t"

def routeRow (ifn : List UInt8) (d g fl m : UInt32) : List UInt8 :=
  routeRowHead ifn d g fl ++ (hexField true 8 m.toNat ++ cstr "\t0\t0\t0\n")

section Builder

-- `if_indextoname`, which leaves the buffer alone when it fails
variable (ifIndextoname : UInt16 → Option (List UInt8))

/-- The first column. -/
def routeIfn (index : UInt16) : List UInt8 :=
  if index ≠ 0 then (ifIndextoname index).getD (cstr "*") else cstr "*"

def shownFlags (flags : UInt32) : UInt32 :=
  flags &&& (rtfUp ||| rtfGateway ||| rtfHost ||| rtfDynamic ||| rtfModified)

/-- What is printed for a message whose addresses have been found. -/
def emitRoute (rtm : RtMsghdr) (r : RouteAddrs) : List UInt8 :=
  r.dst.elim [] fun dst =>
    if u8At 1 dst = afInet then
      routeRow (routeIfn ifIndextoname rtm.index) (u32At 4 dst)
        (r.gw.elim 0 fun gw => if u8At 1 gw = afInet then u32At 4 gw else 0)
        (shownFlags rtm.flags)
        (r.mask.elim 0 fun mask => if 8 ≤ u8At 0 mask then u32At 4 mask else 0)
    else []

/-- A configured route that is in use. -/
def Configured (flags : UInt32) : Prop :=
  flags &&& rtfUp ≠ 0 ∧ flags &&& (rtfWascloned ||| rtfLlinfo) = 0

instance (flags : UInt32) : Decidable (Configured flags) :=
  inferInstanceAs (Decidable (flags &&& rtfUp ≠ 0 ∧ flags &&& (rtfWascloned ||| rtfLlinfo) = 0))

/-- The body of the loop over the messages. -/
def routeMessage (left : ℕ) (p : List UInt8) : List UInt8 :=
  let rtm := RtMsghdr.ofBytes p
  if rtm.version = rtmVersion ∧ Configured rtm.flags then
    emitRoute ifIndextoname rtm (routeAddrs rtm.addrs (List.range rtaxMax) (left - sizeofRtMsghdr)
      (p.drop sizeofRtMsghdr) ⟨none, none, none⟩)
  else []

def routeMessages (left : ℕ) (p : List UInt8) (out : List UInt8) : List UInt8 :=
  if sizeofRtMsghdr ≤ left then
    let msglen := (RtMsghdr.ofBytes p).msglen.toNat
    if msglen = 0 then out
    else routeMessages (left - msglen) (p.drop msglen) (out ++ routeMessage ifIndextoname left p)
  else out
termination_by left
decreasing_by
  rename_i hleft hmsglen
  have hsize : sizeofRtMsghdr = 92 := rfl
  show left - msglen < left
  omega

def routeHeader : List UInt8 :=
  cstr ("Iface\tDestination\tGateway \tFlags\tRefCnt\tUse\tMetric\t" ++
    "Mask\t\tMTU\tWindow\tIRTT\n")

/-- `build_net_route_blob`: `fetched` is the length of the dump and the memory that holds it, if
there is one. -/
def buildNetRouteBlob (fetched : Option (ℕ × List UInt8)) : List UInt8 :=
  match fetched with
  | none => routeHeader
  | some (len, buf) => routeMessages ifIndextoname len buf routeHeader

end Builder

/-! ## Well-formed dumps -/

/-- An address and its padding. The length does not count the padding, and an address of length
0 still has 4 bytes. -/
structure Sockaddr where
  saLen : UInt8
  rest : List UInt8
  padded : 1 + rest.length = max 1 ((saLen.toNat + 3) / 4) * 4

namespace Sockaddr

def bytes (sa : Sockaddr) : List UInt8 := sa.saLen :: sa.rest

def family (sa : Sockaddr) : UInt8 := u8At 1 sa.bytes

/-- `sin_addr`, of an address that is long enough to have one. -/
def addr (sa : Sockaddr) : UInt32 := u32At 4 sa.bytes

/-- The netmask in an address that may have been cut: the bytes that are missing are zeros. -/
def netmask (sa : Sockaddr) : UInt32 := u32At 4 (sa.bytes.take sa.saLen.toNat)

def shownNetmask (sa : Sockaddr) : UInt32 := if 8 ≤ sa.saLen then sa.addr else 0

theorem length_bytes (sa : Sockaddr) :
    sa.bytes.length = max 1 ((sa.saLen.toNat + 3) / 4) * 4 := by
  rw [bytes, List.length_cons, Nat.add_comm, sa.padded]

theorem u8At_saLen (sa : Sockaddr) (rest : List UInt8) : u8At 0 (sa.bytes ++ rest) = sa.saLen := by
  rw [u8At, fieldAt, bytes, List.cons_append, List.drop_zero, List.take_succ_cons, List.take_zero]
  simp [Lib.leNat]

/-- The macro rounds up as the kernel does. -/
theorem procfsSaSize_eq (saLen : UInt8) :
    procfsSaSize saLen = max 1 ((saLen.toNat + 3) / 4) * 4 := by
  have hall : ∀ n < 256, (if n = 0 then 4 else 1 + ((n - 1) ||| 3)) = max 1 ((n + 3) / 4) * 4 := by
    decide +kernel
  rw [← hall saLen.toNat saLen.toNat_lt, procfsSaSize]
  simp only [← UInt8.toNat_inj, UInt8.toNat_zero]

theorem procfsSaSize_bytes (sa : Sockaddr) (rest : List UInt8) :
    procfsSaSize (u8At 0 (sa.bytes ++ rest)) = sa.bytes.length := by
  rw [u8At_saLen, procfsSaSize_eq, length_bytes]

theorem four_le_length (sa : Sockaddr) : 4 ≤ sa.bytes.length := by
  rw [length_bytes]
  omega

theorem family_append (sa : Sockaddr) (rest : List UInt8) :
    u8At 1 (sa.bytes ++ rest) = sa.family := by
  have hlen := sa.four_le_length
  rw [family, u8At, u8At, Lib.fieldAt_append (by omega)]

theorem addr_append {sa : Sockaddr} (h : 8 ≤ sa.saLen) (rest : List UInt8) :
    u32At 4 (sa.bytes ++ rest) = sa.addr := by
  have hlen := sa.length_bytes
  rw [UInt8.le_iff_toNat_le] at h
  have height : (8 : UInt8).toNat = 8 := rfl
  rw [addr, u32At, u32At, Lib.fieldAt_append (by omega)]

theorem length_take_saLen (sa : Sockaddr) :
    (sa.bytes.take sa.saLen.toNat).length = sa.saLen.toNat := by
  have hlen := sa.length_bytes
  rw [List.length_take]
  omega

theorem netmask_of_long {sa : Sockaddr} (h : 8 ≤ sa.saLen.toNat) : sa.netmask = sa.addr := by
  have hlen := sa.length_take_saLen
  have hfield := Lib.fieldAt_append (w := 4)
    (by omega : 4 + 4 ≤ (sa.bytes.take sa.saLen.toNat).length)
    (sa.bytes.drop sa.saLen.toNat)
  rw [List.take_append_drop] at hfield
  rw [netmask, addr, u32At, u32At, hfield]

/-- A netmask that ends before its address is all zeros. -/
theorem netmask_of_short {sa : Sockaddr} (h : sa.saLen.toNat ≤ 4) : sa.netmask = 0 := by
  have hlen := sa.length_take_saLen
  rw [netmask, u32At, fieldAt, List.drop_eq_nil_of_le (by omega)]
  rfl

/-- A netmask that ends within its address has a byte that is not zero. -/
theorem netmask_of_cut {sa : Sockaddr} (hlow : 4 < sa.saLen.toNat) (hhigh : sa.saLen.toNat < 8)
    (hcut : (sa.bytes.take sa.saLen.toNat).getLast? ≠ some 0) : sa.netmask ≠ 0 := by
  have hlen := sa.length_take_saLen
  generalize hl : sa.bytes.take sa.saLen.toNat = l at hlen hcut
  have hdrop : (l.drop 4).length < 4 ∧ l.drop 4 ≠ [] := by
    rw [← List.length_pos_iff, List.length_drop]
    omega
  -- the last byte is one of the address
  have hlast : (l.drop 4).getLast hdrop.2 ≠ 0 := by
    intro hzero
    apply hcut
    rw [← List.take_append_drop 4 l, List.getLast?_append, List.getLast?_eq_some_getLast hdrop.2,
      hzero, Option.some_or]
  have hfield : fieldAt 4 4 l = Lib.leNat (l.drop 4) := by
    rw [fieldAt, List.take_of_length_le (by omega)]
  have hpos : Lib.leNat (l.drop 4) ≠ 0 := by
    rw [Ne, Lib.leNat_eq_zero_iff]
    exact fun hall => hlast (hall _ (List.getLast_mem hdrop.2))
  have hpow : 256 ^ (l.drop 4).length ≤ 256 ^ 4 := Nat.pow_le_pow_right (by decide) (by omega)
  have hlt : Lib.leNat (l.drop 4) < 2 ^ 32 := Nat.lt_of_lt_of_le (Lib.leNat_lt _) hpow
  rw [netmask, hl, u32At, hfield, ← UInt32.toNat_inj.ne, UInt32.toNat_ofNat', UInt32.toNat_zero,
    Nat.mod_eq_of_lt hlt]
  exact hpos

/-- A netmask that was cut is shown right if and only if it was not cut within its address. -/
theorem shownNetmask_eq_iff {sa : Sockaddr}
    (hcut : sa.saLen < 8 → (sa.bytes.take sa.saLen.toNat).getLast? ≠ some 0) :
    sa.shownNetmask = sa.netmask ↔ sa.saLen ≤ 4 ∨ 8 ≤ sa.saLen := by
  have hfour : (4 : UInt8).toNat = 4 := rfl
  have height : (8 : UInt8).toNat = 8 := rfl
  rw [UInt8.lt_iff_toNat_lt, height] at hcut
  simp only [shownNetmask, UInt8.le_iff_toNat_le, hfour, height]
  by_cases hlong : 8 ≤ sa.saLen.toNat
  · simp [hlong, netmask_of_long hlong]
  · rw [if_neg hlong]
    by_cases hshort : sa.saLen.toNat ≤ 4
    · simp [hshort, netmask_of_short hshort]
    · have hne := netmask_of_cut (by omega) (by omega) (hcut (by omega))
      simp [hlong, hshort, hne.symm]

end Sockaddr

/-- A message: the addresses that are there, in the order of the bits of the mask. An IPv4
address has all of its bytes, and a netmask that does not reach to the end of its address was
cut behind a byte that is not zero. -/
structure RouteMsg where
  type : UInt8
  index : UInt16
  pad : UInt16
  flags : UInt32
  others : List UInt8
  addrs : List (Option Sockaddr)
  length_others : others.length = 76
  length_addrs : addrs.length = rtaxMax
  inet_long : ∀ i sa, i ≠ rtaxNetmask → addrs[i]? = some (some sa) → sa.family = afInet →
    8 ≤ sa.saLen
  mask_cut : ∀ sa, addrs[rtaxNetmask]? = some (some sa) → sa.saLen < 8 →
    (sa.bytes.take sa.saLen.toNat).getLast? ≠ some 0

/-- The mask that says which addresses are there. -/
def addrsMask : List (Option Sockaddr) → ℕ
  | [] => 0
  | sa :: sas => sa.isSome.toNat + 2 * addrsMask sas

/-- The bytes of the addresses that are there. -/
def addrsBytes (sas : List (Option Sockaddr)) : List UInt8 :=
  sas.flatMap fun sa => sa.elim [] Sockaddr.bytes

namespace RouteMsg

def addr (m : RouteMsg) (i : ℕ) : Option Sockaddr := m.addrs[i]?.join

def msglen (m : RouteMsg) : ℕ := sizeofRtMsghdr + (addrsBytes m.addrs).length

def header (m : RouteMsg) : List UInt8 :=
  leBytes 2 m.msglen ++ (leBytes 1 rtmVersion.toNat ++ (leBytes 1 m.type.toNat ++
    (leBytes 2 m.index.toNat ++ (leBytes 2 m.pad.toNat ++ (leBytes 4 m.flags.toNat ++
      (leBytes 4 (addrsMask m.addrs) ++ m.others))))))

def bytes (m : RouteMsg) : List UInt8 := m.header ++ addrsBytes m.addrs

/-- The destination of a usable IPv4 route that is neither cloned nor of the link layer. -/
def destination (m : RouteMsg) : Option Sockaddr :=
  if Configured m.flags then (m.addr rtaxDst).filter fun sa => sa.family = afInet else none

/-- The gateway; one that is not an IPv4 address is 0.0.0.0. -/
def gateway (m : RouteMsg) : UInt32 :=
  (m.addr rtaxGateway).elim 0 fun gw => if gw.family = afInet then gw.addr else 0

/-- The row of a route, if it has one. A netmask that is not there is 0.0.0.0. -/
def row (netmask : Sockaddr → UInt32) (ifIndextoname : UInt16 → Option (List UInt8))
    (m : RouteMsg) : Option (List UInt8) :=
  m.destination.map fun dst =>
    routeRow (routeIfn ifIndextoname m.index) dst.addr m.gateway (shownFlags m.flags)
      ((m.addr rtaxNetmask).elim 0 netmask)

end RouteMsg

/-! ## The addresses of a message -/

theorem length_addrsBytes_le (sas : List (Option Sockaddr)) :
    (addrsBytes sas).length ≤ 256 * sas.length := by
  induction sas with
  | nil => exact Nat.le_refl 0
  | cons sa sas ih =>
    have hsa : (sa.elim [] Sockaddr.bytes).length ≤ 256 := by
      cases sa with
      | none => exact Nat.zero_le _
      | some sa =>
        have hlt := sa.saLen.toNat_lt
        have hlen := sa.length_bytes
        show sa.bytes.length ≤ 256
        omega
    rw [addrsBytes, List.flatMap_cons, List.length_append, List.length_cons]
    rw [addrsBytes] at ih
    omega

theorem addrsMask_lt (sas : List (Option Sockaddr)) : addrsMask sas < 2 ^ sas.length := by
  induction sas with
  | nil => exact Nat.one_pos
  | cons sa sas ih =>
    have hbit := sa.isSome.toNat_le
    rw [addrsMask, List.length_cons, Nat.pow_succ]
    omega

/-- The bits of the mask are the addresses that are there. -/
theorem testBit_addrsMask (sas : List (Option Sockaddr)) (i : ℕ) :
    (addrsMask sas).testBit i = sas[i]?.join.isSome := by
  induction sas generalizing i with
  | nil => simp [addrsMask]
  | cons sa sas ih =>
    rw [addrsMask]
    have hbit := sa.isSome.toNat_le
    cases i with
    | zero =>
      rw [Nat.testBit_zero, Nat.add_mul_mod_self_left]
      cases sa <;> rfl
    | succ i =>
      have hhalf : (sa.isSome.toNat + 2 * addrsMask sas) / 2 = addrsMask sas := by omega
      rw [Nat.testBit_succ, hhalf, ih, List.getElem?_cons_succ]

/-- The pointer to the address with a number. -/
def RouteAddrs.get (r : RouteAddrs) (i : ℕ) : Option (List UInt8) :=
  if i = rtaxDst then r.dst else if i = rtaxGateway then r.gw
  else if i = rtaxNetmask then r.mask else none

theorem RouteAddrs.get_set_self (r : RouteAddrs) {i : ℕ} (hi : i ≤ rtaxNetmask) (sa : List UInt8) :
    (r.set i sa).get i = some sa := by
  have hcases : i = 0 ∨ i = 1 ∨ i = 2 := by
    rw [rtaxNetmask] at hi
    omega
  rcases hcases with rfl | rfl | rfl <;> rfl

theorem RouteAddrs.get_set_of_ne (r : RouteAddrs) {i j : ℕ} (h : j ≠ i) (sa : List UInt8) :
    (r.set i sa).get j = r.get j := by
  rw [RouteAddrs.set]
  split_ifs with hdst hgw hmask
  · simp [RouteAddrs.get, ← hdst, h]
  · simp [RouteAddrs.get, ← hgw, h]
  · simp [RouteAddrs.get, ← hmask, h]
  · rfl

/-- A pointer to an address, or a null pointer where there is none. -/
def PointsTo : Option (List UInt8) → Option Sockaddr → Prop
  | none, none => True
  | some p, some sa => sa.bytes <+: p
  | _, _ => False

/-- What is read through a pointer is read from the address. -/
theorem PointsTo.elim_eq {α : Type} {o : Option (List UInt8)} {sa : Option Sockaddr}
    (h : PointsTo o sa) {f : List UInt8 → α} {g : Sockaddr → α} (d : α)
    (hread : ∀ s rest, sa = some s → f (s.bytes ++ rest) = g s) : o.elim d f = sa.elim d g := by
  cases o with
  | none =>
    cases sa with
    | none => rfl
    | some s => exact h.elim
  | some p =>
    cases sa with
    | none => exact h.elim
    | some s =>
      rcases h with ⟨rest, rfl⟩
      exact hread s rest rfl

/-- The netmask that is shown is read from the address of the netmask. -/
theorem PointsTo.elim_shownNetmask {o : Option (List UInt8)} {sa : Option Sockaddr}
    (h : PointsTo o sa) :
    (o.elim 0 fun mask => if 8 ≤ u8At 0 mask then u32At 4 mask else 0) =
      sa.elim 0 Sockaddr.shownNetmask := by
  refine h.elim_eq 0 fun sa tail _ => ?_
  rw [sa.u8At_saLen, Sockaddr.shownNetmask]
  split_ifs with hlong
  · exact Sockaddr.addr_append hlong tail
  · rfl

theorem getElem?_cons_sub {α : Type} {i k : ℕ} (h : k < i) (a : α) (l : List α) :
    (a :: l)[i - k]? = l[i - (k + 1)]? := by
  obtain ⟨d, rfl⟩ : ∃ d, i = k + 1 + d := ⟨i - (k + 1), by omega⟩
  rw [Nat.add_sub_cancel_left, Nat.add_assoc, Nat.add_sub_cancel_left, Nat.add_comm 1 d,
    List.getElem?_cons_succ]

/-- The loop over the bits from `k` on finds the addresses that begin where it stands, and
leaves the pointers to those before. -/
theorem routeAddrs_get {addrs : UInt32} {sas : List (Option Sockaddr)} {k : ℕ}
    (hbits : ∀ j < sas.length, addrs.toNat.testBit (k + j) = sas[j]?.join.isSome)
    (left : ℕ) (rest : List UInt8) (r : RouteAddrs) {i : ℕ} (hi : i ≤ rtaxNetmask) :
    let r' := routeAddrs addrs (List.range' k sas.length) ((addrsBytes sas).length + left)
      (addrsBytes sas ++ rest) r
    (i < k → r'.get i = r.get i) ∧
      (k ≤ i → r.get i = none → PointsTo (r'.get i) sas[i - k]?.join) := by
  induction sas generalizing k r with
  | nil =>
    refine ⟨fun _ => rfl, fun _ hnone => ?_⟩
    show PointsTo (r.get i) none
    rw [hnone]
    exact trivial
  -- the address at `k` comes first; it is there if its bit is set
  | cons sa sas ih =>
    have hhead := hbits 0 (Nat.succ_pos _)
    have htail : ∀ j < sas.length, addrs.toNat.testBit (k + 1 + j) = sas[j]?.join.isSome := by
      intro j hj
      have hj := hbits (j + 1) (Nat.succ_lt_succ hj)
      rwa [List.getElem?_cons_succ, Nat.add_comm j 1, ← Nat.add_assoc] at hj
    rw [Nat.add_zero, List.getElem?_cons_zero, Option.join_some] at hhead
    rw [List.length_cons, List.range'_succ, routeAddrs, hhead]
    cases sa with
    | none =>
      rcases ih htail r with ⟨hbefore, hfrom⟩
      refine ⟨fun hlt => hbefore (by omega), fun hle hnone => ?_⟩
      rcases Nat.eq_or_lt_of_le hle with rfl | hlt
      · rw [Nat.sub_self]
        have hkeep := hbefore (Nat.lt_succ_self k)
        rw [hnone] at hkeep
        exact hkeep ▸ trivial
      · rw [getElem?_cons_sub hlt]
        exact hfrom hlt hnone
    | some sa =>
      have hbytes : addrsBytes (some sa :: sas) = sa.bytes ++ addrsBytes sas := rfl
      have hpos := sa.four_le_length
      rcases ih htail (r.set k (sa.bytes ++ (addrsBytes sas ++ rest))) with ⟨hbefore, hfrom⟩
      rw [hbytes, if_pos Option.isSome_some, if_neg (by rw [List.length_append]; omega),
        List.append_assoc]
      simp only [sa.procfsSaSize_bytes, List.drop_left]
      -- its bytes are passed over
      have hleft : (sa.bytes ++ addrsBytes sas).length + left - sa.bytes.length =
          (addrsBytes sas).length + left := by
        rw [List.length_append]
        omega
      rw [hleft]
      refine ⟨fun hlt => ?_, fun hle hnone => ?_⟩
      · rw [hbefore (by omega), RouteAddrs.get_set_of_ne r (by omega)]
      · rcases Nat.eq_or_lt_of_le hle with rfl | hlt
        · rw [hbefore (Nat.lt_succ_self k), RouteAddrs.get_set_self r hi, Nat.sub_self]
          exact List.prefix_append sa.bytes _
        · rw [getElem?_cons_sub hlt]
          exact hfrom hlt (by rw [RouteAddrs.get_set_of_ne r (by omega), hnone])

/-! ## The walk over a dump -/

namespace RouteMsg

theorem length_header (m : RouteMsg) : m.header.length = sizeofRtMsghdr := by
  simp only [header, List.length_append, Lib.length_leBytes, m.length_others, sizeofRtMsghdr]

theorem length_bytes (m : RouteMsg) : m.bytes.length = m.msglen := by
  rw [bytes, List.length_append, length_header, msglen]

theorem msglen_lt (m : RouteMsg) : m.msglen < 2 ^ 16 := by
  have hle := length_addrsBytes_le m.addrs
  rw [m.length_addrs, rtaxMax] at hle
  rw [msglen, sizeofRtMsghdr]
  omega

theorem ofBytes_bytes (m : RouteMsg) (rest : List UInt8) :
    RtMsghdr.ofBytes (m.bytes ++ rest) =
      ⟨UInt16.ofNat m.msglen, rtmVersion, m.index, m.flags, UInt32.ofNat (addrsMask m.addrs)⟩ := by
  have hmask := addrsMask_lt m.addrs
  rw [m.length_addrs, rtaxMax] at hmask
  have hmsglen : fieldAt 2 0 (m.bytes ++ rest) = m.msglen := by
    simp only [bytes, header, List.append_assoc]
    exact Lib.fieldAt_leBytes m.msglen_lt _
  have hversion : fieldAt 1 (2 + 0) (m.bytes ++ rest) = rtmVersion.toNat := by
    simp only [bytes, header, List.append_assoc]
    rw [Lib.fieldAt_leBytes_skip, Lib.fieldAt_leBytes rtmVersion.toNat_lt]
  have hindex : fieldAt 2 (2 + (1 + (1 + 0))) (m.bytes ++ rest) = m.index.toNat := by
    simp only [bytes, header, List.append_assoc]
    rw [Lib.fieldAt_leBytes_skip, Lib.fieldAt_leBytes_skip, Lib.fieldAt_leBytes_skip,
      Lib.fieldAt_leBytes m.index.toNat_lt]
  have hflags : fieldAt 4 (2 + (1 + (1 + (2 + (2 + 0))))) (m.bytes ++ rest) = m.flags.toNat := by
    simp only [bytes, header, List.append_assoc]
    rw [Lib.fieldAt_leBytes_skip, Lib.fieldAt_leBytes_skip, Lib.fieldAt_leBytes_skip,
      Lib.fieldAt_leBytes_skip, Lib.fieldAt_leBytes_skip, Lib.fieldAt_leBytes m.flags.toNat_lt]
  have haddrs : fieldAt 4 (2 + (1 + (1 + (2 + (2 + (4 + 0)))))) (m.bytes ++ rest) =
      addrsMask m.addrs := by
    simp only [bytes, header, List.append_assoc]
    rw [Lib.fieldAt_leBytes_skip, Lib.fieldAt_leBytes_skip, Lib.fieldAt_leBytes_skip,
      Lib.fieldAt_leBytes_skip, Lib.fieldAt_leBytes_skip, Lib.fieldAt_leBytes_skip,
      Lib.fieldAt_leBytes (by omega)]
  rw [RtMsghdr.ofBytes, u16At, u8At, u16At, u32At, u32At, hmsglen, hversion, hindex, hflags, haddrs,
    UInt8.ofNat_toNat, UInt16.ofNat_toNat, UInt32.ofNat_toNat]

/-- The pointers of the loop over the addresses. -/
theorem routeAddrs_bytes (m : RouteMsg) (left : ℕ) (rest : List UInt8) {i : ℕ}
    (hi : i ≤ rtaxNetmask) :
    PointsTo ((routeAddrs (UInt32.ofNat (addrsMask m.addrs)) (List.range rtaxMax)
      ((addrsBytes m.addrs).length + left) (addrsBytes m.addrs ++ rest) ⟨none, none, none⟩).get i)
      (m.addr i) := by
  have hmask := addrsMask_lt m.addrs
  rw [m.length_addrs, rtaxMax] at hmask
  have hbits : ∀ j < m.addrs.length,
      (UInt32.ofNat (addrsMask m.addrs)).toNat.testBit (0 + j) = m.addrs[j]?.join.isSome := by
    intro j _
    rw [UInt32.toNat_ofNat', Nat.mod_eq_of_lt (by omega), Nat.zero_add, testBit_addrsMask]
  have hnone : (⟨none, none, none⟩ : RouteAddrs).get i = none := by
    rw [RouteAddrs.get]
    split_ifs <;> rfl
  have hget := (routeAddrs_get hbits left rest ⟨none, none, none⟩ hi).2 (Nat.zero_le i) hnone
  rwa [m.length_addrs, ← List.range_eq_range', Nat.sub_zero] at hget

theorem addr_long (m : RouteMsg) {i : ℕ} (hi : i ≠ rtaxNetmask) {sa : Sockaddr}
    (h : m.addr i = some sa) (hfamily : sa.family = afInet) : 8 ≤ sa.saLen :=
  m.inet_long i sa hi (Option.join_eq_some_iff.mp h) hfamily

/-- The gateway is read from the address of the gateway. -/
theorem elim_gateway (m : RouteMsg) {o : Option (List UInt8)}
    (h : PointsTo o (m.addr rtaxGateway)) :
    (o.elim 0 fun gw => if u8At 1 gw = afInet then u32At 4 gw else 0) = m.gateway := by
  refine h.elim_eq 0 fun sa tail hsa => ?_
  rw [sa.family_append]
  split_ifs with hfamily
  · exact Sockaddr.addr_append (m.addr_long (by decide) hsa hfamily) tail
  · rfl

variable (ifIndextoname : UInt16 → Option (List UInt8))

/-- A message gives the row of its route, with the netmask that is shown. -/
theorem routeMessage_bytes (m : RouteMsg) (left : ℕ) (rest : List UInt8) :
    routeMessage ifIndextoname (m.bytes.length + left) (m.bytes ++ rest) =
      (m.row Sockaddr.shownNetmask ifIndextoname).getD [] := by
  have hdrop : (m.bytes ++ rest).drop sizeofRtMsghdr = addrsBytes m.addrs ++ rest := by
    rw [bytes, List.append_assoc, ← m.length_header, List.drop_left]
  have hleft : m.bytes.length + left - sizeofRtMsghdr = (addrsBytes m.addrs).length + left := by
    rw [m.length_bytes, msglen]
    omega
  simp only [routeMessage, m.ofBytes_bytes, hdrop, hleft, true_and]
  rw [row, destination]
  by_cases hconf : Configured m.flags
  swap
  · rw [if_neg hconf, if_neg hconf, Option.map_none, Option.getD_none]
  rw [if_pos hconf, if_pos hconf]
  -- what the three pointers point to
  have hdst := m.routeAddrs_bytes left rest (i := rtaxDst) (by decide)
  have hgw := m.routeAddrs_bytes left rest (i := rtaxGateway) (by decide)
  have hmask := m.routeAddrs_bytes left rest (i := rtaxNetmask) (by decide)
  generalize routeAddrs _ _ _ _ _ = r at hdst hgw hmask
  have hdst : PointsTo r.dst (m.addr rtaxDst) := hdst
  have hgw : PointsTo r.gw (m.addr rtaxGateway) := hgw
  have hmask : PointsTo r.mask (m.addr rtaxNetmask) := hmask
  rw [emitRoute, m.elim_gateway hgw, hmask.elim_shownNetmask]
  refine (hdst.elim_eq [] (g := fun sa => if sa.family = afInet then
    routeRow (routeIfn ifIndextoname m.index) sa.addr m.gateway (shownFlags m.flags)
      ((m.addr rtaxNetmask).elim 0 Sockaddr.shownNetmask) else []) ?_).trans ?_
  · intro sa tail hsa
    dsimp only
    rw [sa.family_append]
    split_ifs with hfamily
    · rw [Sockaddr.addr_append (m.addr_long (by decide) hsa hfamily) tail]
    · rfl
  · cases m.addr rtaxDst with
    | none => rfl
    | some sa => by_cases hfamily : sa.family = afInet <;> simp [Option.filter, hfamily]

/-- The walk goes from message to message. -/
theorem routeMessages_cons (m : RouteMsg) (left : ℕ) (rest out : List UInt8) :
    routeMessages ifIndextoname (m.bytes.length + left) (m.bytes ++ rest) out =
      routeMessages ifIndextoname left rest
        (out ++ (m.row Sockaddr.shownNetmask ifIndextoname).getD []) := by
  have hlt := m.msglen_lt
  have hlen := m.length_bytes
  have hmsglen : (UInt16.ofNat m.msglen).toNat = m.bytes.length := by
    rw [UInt16.toNat_ofNat', Nat.mod_eq_of_lt hlt, hlen]
  have hsize : sizeofRtMsghdr ≤ m.bytes.length := by
    rw [hlen, msglen]
    omega
  have hpos : 0 < sizeofRtMsghdr := by decide
  rw [routeMessages, if_pos (by omega)]
  simp only [m.ofBytes_bytes, hmsglen]
  rw [if_neg (by omega), Nat.add_sub_cancel_left, List.drop_left, m.routeMessage_bytes]

end RouteMsg

def dumpBytes (msgs : List RouteMsg) : List UInt8 := msgs.flatMap RouteMsg.bytes

/-- The rows of the routes of a dump, with a way to read netmasks. -/
def routeRows (netmask : Sockaddr → UInt32) (ifIndextoname : UInt16 → Option (List UInt8))
    (msgs : List RouteMsg) : List (List UInt8) :=
  msgs.filterMap (RouteMsg.row netmask ifIndextoname)

section Dump

variable (ifIndextoname : UInt16 → Option (List UInt8))

theorem flatten_routeRows (netmask : Sockaddr → UInt32) (msgs : List RouteMsg) :
    (routeRows netmask ifIndextoname msgs).flatten =
      msgs.flatMap fun m => (m.row netmask ifIndextoname).getD [] := by
  induction msgs with
  | nil => rfl
  | cons m msgs ih =>
    rw [List.flatMap_cons, ← ih, routeRows, routeRows, List.filterMap_cons]
    cases m.row netmask ifIndextoname <;> rfl

theorem routeMessages_dump (msgs : List RouteMsg) (slack out : List UInt8) :
    routeMessages ifIndextoname (dumpBytes msgs).length (dumpBytes msgs ++ slack) out =
      out ++ (routeRows Sockaddr.shownNetmask ifIndextoname msgs).flatten := by
  rw [flatten_routeRows]
  induction msgs generalizing out with
  | nil =>
    rw [routeMessages, if_neg (by decide)]
    exact (List.append_nil out).symm
  | cons m msgs ih =>
    have hbytes : dumpBytes (m :: msgs) = m.bytes ++ dumpBytes msgs := List.flatMap_cons
    rw [hbytes, List.length_append, List.append_assoc, m.routeMessages_cons, ih, List.append_assoc,
      List.flatMap_cons]

theorem length_routeRow (ifn : List UInt8) (d g fl m m' : UInt32) :
    (routeRow ifn d g fl m).length = (routeRow ifn d g fl m').length := by
  rw [routeRow, routeRow]
  simp only [List.length_append]
  rw [Lib.length_hexField (by decide) m.toNat_lt, Lib.length_hexField (by decide) m'.toNat_lt]

theorem routeRow_inj {ifn : List UInt8} {d g fl m m' : UInt32}
    (h : routeRow ifn d g fl m = routeRow ifn d g fl m') : m = m' := by
  have hfield := List.append_cancel_right (List.append_cancel_left h)
  exact UInt32.toNat_inj.mp (Lib.hexField_inj hfield)

/-- Two ways to read netmasks give the same text if and only if they agree on the netmasks of
the routes that have a row. -/
theorem routeRows_eq_iff (f g : Sockaddr → UInt32) (msgs : List RouteMsg) :
    (routeRows f ifIndextoname msgs).flatten = (routeRows g ifIndextoname msgs).flatten ↔
      ∀ m ∈ msgs, m.destination.isSome → ∀ sa, m.addr rtaxNetmask = some sa → f sa = g sa := by
  rw [flatten_routeRows, flatten_routeRows, Lib.flatMap_eq_flatMap_iff]
  · refine forall₂_congr fun m _ => ?_
    rw [RouteMsg.row, RouteMsg.row]
    cases m.destination with
    | none => simp
    | some dst =>
      cases m.addr rtaxNetmask with
      | none => simp
      | some sa =>
        simp only [Option.map_some, Option.getD_some, Option.elim_some, Option.isSome_some,
          Option.some.injEq, forall_const, forall_eq']
        exact ⟨routeRow_inj, fun h => by rw [h]⟩
  · intro m _
    rw [RouteMsg.row, RouteMsg.row]
    cases m.destination with
    | none => rfl
    | some dst => exact length_routeRow _ _ _ _ _ _

/-- The table has one row for each usable IPv4 route, in their order, with its destination,
gateway and netmask, if and only if no netmask of such a route was cut within its address. -/
theorem buildNetRouteBlob_rows_iff (msgs : List RouteMsg) (slack : List UInt8) :
    buildNetRouteBlob ifIndextoname (some ((dumpBytes msgs).length, dumpBytes msgs ++ slack)) =
        routeHeader ++ (routeRows Sockaddr.netmask ifIndextoname msgs).flatten ↔
      ∀ m ∈ msgs, m.destination.isSome → ∀ sa, m.addr rtaxNetmask = some sa →
        sa.saLen ≤ 4 ∨ 8 ≤ sa.saLen := by
  rw [buildNetRouteBlob, routeMessages_dump, List.append_cancel_left_eq, routeRows_eq_iff]
  refine forall₄_congr fun m _ _ sa => forall_congr' fun hsa => ?_
  exact Sockaddr.shownNetmask_eq_iff (m.mask_cut sa (Option.join_eq_some_iff.mp hsa))

end Dump

/-- An IPv4 address in full. -/
def inetSockaddr (a b c d : UInt8) : Sockaddr where
  saLen := 16
  rest := [afInet, 0, 0, a, b, c, d, 0, 0, 0, 0, 0, 0, 0, 0]
  padded := rfl

/-- The netmask 255.0.0.0, cut behind its first byte. -/
def classAMask : Sockaddr where
  saLen := 5
  rest := [0, 0, 0, 255, 0, 0, 0]
  padded := rfl

def classAAddrs : List (Option Sockaddr) :=
  [some (inetSockaddr 10 0 0 0), some (inetSockaddr 192 168 1 1), some classAMask, none, none, none,
    none, none]

theorem classAAddrs_long (i : ℕ) (sa : Sockaddr) (_ : i ≠ rtaxNetmask)
    (h : classAAddrs[i]? = some (some sa)) (hfamily : sa.family = afInet) : 8 ≤ sa.saLen := by
  have hmem := List.mem_of_getElem? h
  simp only [classAAddrs, List.mem_cons, Option.some.injEq, reduceCtorEq, List.not_mem_nil,
    or_false] at hmem
  rcases hmem with rfl | rfl | rfl
  · decide
  · decide
  · exact absurd hfamily (by decide)

theorem classAAddrs_cut (sa : Sockaddr) (h : classAAddrs[rtaxNetmask]? = some (some sa))
    (_ : sa.saLen < 8) : (sa.bytes.take sa.saLen.toNat).getLast? ≠ some 0 := by
  rw [← Option.some.inj (Option.some.inj h)]
  decide

/-- 10.0.0.0/8 by way of 192.168.1.1. -/
def classARoute : RouteMsg where
  type := 4
  index := 1
  pad := 0
  flags := rtfUp ||| rtfGateway
  others := List.replicate 76 0
  addrs := classAAddrs
  length_others := rfl
  length_addrs := rfl
  inet_long := classAAddrs_long
  mask_cut := classAAddrs_cut

/-- The netmask of the route is shown as 0.0.0.0. -/
theorem buildNetRouteBlob_classA :
    buildNetRouteBlob (fun _ => some (cstr "en0"))
        (some ((dumpBytes [classARoute]).length, dumpBytes [classARoute])) ≠
      routeHeader ++ (routeRows Sockaddr.netmask (fun _ => some (cstr "en0"))
        [classARoute]).flatten ∧
    buildNetRouteBlob (fun _ => some (cstr "en0"))
        (some ((dumpBytes [classARoute]).length, dumpBytes [classARoute])) =
      routeHeader ++ cstr "en0\t0000000A\t0101A8C0\t0003\t0\t0\t0\t00000000\t0\t0\t0\n" := by
  have hblob := routeMessages_dump (fun _ => some (cstr "en0")) [classARoute] [] routeHeader
  rw [List.append_nil] at hblob
  rw [buildNetRouteBlob, hblob, Ne, List.append_cancel_left_eq, List.append_cancel_left_eq]
  decide

end ProcFS.Data
