import ProcFS.Reading

/-!
# ProcFS.FileIds — when two nodes have the same file number

`procfs_get_fileid` packs a base id, a process id and an object id into 64 bits: the base id
takes the bits 0 to 15, the process id starts at bit 8 and has 17 bits, and the object id starts
at bit 24. So the second byte is shared by the base id and the process id, and bit 24 by the
process id and the object id. Two nodes are told apart unless they differ only in what is
covered by the other field there.

* `toNat_fileId`: a file number as the three fields laid over each other.
* `fileId_eq_iff`: when two ids have one file number.
* `fileIds_apart_iff`: the same, for two nodes of one mount.
-/

namespace ProcFS

/-! ## The packed fields -/

/-- The ids in question: no process, or one of those that are enumerated, and an object id
that is not cut off. -/
structure PfsId.InRange (id : PfsId) : Prop where
  pid : id.nodeidPid = prnodeNoPid ∨ 0 ≤ id.nodeidPid ∧ id.nodeidPid ≤ 99999
  objectid : id.nodeidObjectid.toNat < 2 ^ 40

/-- What the process id contributes to a file number, 8 bits up. -/
def PfsId.pidBits (id : PfsId) : ℕ :=
  if id.nodeidPid = prnodeNoPid then 0 else id.nodeidPid.toNatClampNeg

/-- Two ids of one structure node that differ only where another field covers it: in the bits
of the process id that are set in the high byte of the base id, or in the lowest bit of the
object id if a process id has 17 bits. -/
structure Overlaid (id id' : PfsId) : Prop where
  base : id.nodeidBaseId = id'.nodeidBaseId
  pidLow : id.nodeidBaseId.toNat / 256 ||| id.pidBits % 256 =
    id.nodeidBaseId.toNat / 256 ||| id'.pidBits % 256
  pidMiddle : id.pidBits / 256 % 256 = id'.pidBits / 256 % 256
  objectid : id.pidBits / 65536 ||| id.nodeidObjectid.toNat =
    id'.pidBits / 65536 ||| id'.nodeidObjectid.toNat

theorem PfsId.InRange.pidBits_le {id : PfsId} (h : id.InRange) : id.pidBits ≤ 99999 := by
  unfold PfsId.pidBits
  split
  · omega
  · rename_i hpid
    rcases h.pid with hnone | ⟨-, hle⟩
    · exact absurd hnone hpid
    · have hint := Int32.le_iff_toInt_le.mp hle
      have hmax : (99999 : Int32).toInt = 99999 := rfl
      show id.nodeidPid.toInt.toNat ≤ 99999
      omega

/-- The shift of a process id does not overflow. -/
theorem toNat_pidShift {pid : Int32} (hnonneg : 0 ≤ pid) (hle : pid.toNatClampNeg ≤ 99999) :
    (pid <<< 8).toInt64.toUInt64.toNat = pid.toNatClampNeg * 256 := by
  have hnat : pid.toBitVec.toNat = pid.toNatClampNeg := by
    have hint : (0 : Int32).toInt ≤ pid.toBitVec.toInt := Int32.le_iff_toInt_le.mp hnonneg
    have hzero : (0 : Int32).toInt = 0 := rfl
    have hlt := pid.toBitVec.isLt
    show pid.toBitVec.toNat = pid.toBitVec.toInt.toNat
    rw [BitVec.toInt_eq_toNat_cond] at hint ⊢
    split at hint
    · rename_i hsmall
      rw [if_pos hsmall, Int.toNat_natCast]
    · omega
  have hbits : (pid <<< 8).toBitVec = pid.toBitVec <<< (8 : ℕ) := by
    rw [Int32.toBitVec_shiftLeft]
    rfl
  have hvalue : (pid.toBitVec <<< (8 : ℕ)).toNat = pid.toNatClampNeg * 256 := by
    rw [BitVec.toNat_shiftLeft, hnat, Nat.shiftLeft_eq, Nat.mod_eq_of_lt (by omega)]
  have hmsb : (pid.toBitVec <<< (8 : ℕ)).msb = false := by
    rw [BitVec.msb_eq_false_iff_two_mul_lt, hvalue]
    omega
  show ((pid <<< 8).toBitVec.signExtend 64).toNat = _
  rw [hbits, BitVec.signExtend_eq_setWidth_of_msb_false hmsb, BitVec.toNat_setWidth, hvalue]
  omega

/-- A file number, over the natural numbers. -/
theorem toNat_fileId {id : PfsId} (h : id.InRange) :
    id.fileId.toNat =
      id.nodeidBaseId.toNat ||| id.pidBits * 256 ||| id.nodeidObjectid.toNat * 16777216 := by
  have hobject : (id.nodeidObjectid <<< 24).toNat = id.nodeidObjectid.toNat * 16777216 := by
    have hlt := h.objectid
    have hshift : (24 : UInt64).toNat % 64 = 24 := rfl
    rw [UInt64.toNat_shiftLeft, hshift, Nat.shiftLeft_eq, Nat.mod_eq_of_lt (by omega)]
  have hle := h.pidBits_le
  have hbase : id.nodeidBaseId.toUInt64.toNat = id.nodeidBaseId.toNat := UInt16.toNat_toUInt64 _
  have hfile : id.fileId =
      (if id.nodeidPid ≠ prnodeNoPid then
        id.nodeidBaseId.toUInt64 ||| (id.nodeidPid <<< 8).toInt64.toUInt64
      else id.nodeidBaseId.toUInt64) ||| (id.nodeidObjectid <<< 24) := rfl
  rw [hfile, UInt64.toNat_or, hobject]
  unfold PfsId.pidBits at hle ⊢
  by_cases hpid : id.nodeidPid = prnodeNoPid
  · rw [if_neg (not_not.mpr hpid), if_pos hpid, hbase, Nat.zero_mul, Nat.or_zero]
  · have hnonneg := (h.pid.resolve_left hpid).1
    rw [if_neg hpid] at hle
    rw [if_pos hpid, if_neg hpid, UInt64.toNat_or, hbase, toNat_pidShift hnonneg hle]

/-- Numbers are equal if their three low bytes and the rest are. -/
theorem eq_iff_bytes (m n : ℕ) :
    m = n ↔ m % 256 = n % 256 ∧ m / 256 % 256 = n / 256 % 256 ∧
      m / 65536 % 256 = n / 65536 % 256 ∧ m / 16777216 = n / 16777216 := by
  omega

/-- The bytes of three fields that are laid over each other one, two and three places up. -/
theorem bytes_or {b : ℕ} (hb : b < 65536) (p o : ℕ) :
    (b ||| p * 256 ||| o * 16777216) % 256 = b % 256 ∧
      (b ||| p * 256 ||| o * 16777216) / 256 % 256 = b / 256 ||| p % 256 ∧
      (b ||| p * 256 ||| o * 16777216) / 65536 % 256 = p / 256 % 256 ∧
      (b ||| p * 256 ||| o * 16777216) / 16777216 = p / 65536 ||| o := by
  -- each field, at each of the four places
  have hpid (n : ℕ) : n * 256 % 256 = 0 ∧ n * 256 / 256 % 256 = n % 256 ∧
      n * 256 / 65536 % 256 = n / 256 % 256 ∧ n * 256 / 16777216 = n / 65536 := by omega
  have hobject (n : ℕ) : n * 16777216 % 256 = 0 ∧ n * 16777216 / 256 % 256 = 0 ∧
      n * 16777216 / 65536 % 256 = 0 ∧ n * 16777216 / 16777216 = n := by omega
  obtain ⟨hb1, hb2, hb3⟩ : b / 256 % 256 = b / 256 ∧ b / 65536 % 256 = 0 ∧ b / 16777216 = 0 := by
    omega
  obtain ⟨hp0, hp1, hp2, hp3⟩ := hpid p
  obtain ⟨ho0, ho1, ho2, ho3⟩ := hobject o
  have hmod (x y : ℕ) : (x ||| y) % 256 = x % 256 ||| y % 256 := @Nat.or_mod_two_pow x y 8
  have hdiv8 (x y : ℕ) : (x ||| y) / 256 = x / 256 ||| y / 256 := @Nat.or_div_two_pow x y 8
  have hdiv16 (x y : ℕ) : (x ||| y) / 65536 = x / 65536 ||| y / 65536 := @Nat.or_div_two_pow x y 16
  have hdiv24 (x y : ℕ) : (x ||| y) / 16777216 = x / 16777216 ||| y / 16777216 :=
    @Nat.or_div_two_pow x y 24
  refine ⟨?_, ?_, ?_, ?_⟩
  · rw [hmod, hmod, hp0, ho0, Nat.or_zero, Nat.or_zero]
  · rw [hdiv8, hdiv8, hmod, hmod, hb1, hp1, ho1, Nat.or_zero]
  · rw [hdiv16, hdiv16, hmod, hmod, hb2, hp2, ho2, Nat.zero_or, Nat.or_zero]
  · rw [hdiv24, hdiv24, hb3, hp3, ho3, Nat.zero_or]

/-- The low byte of a base id tells the structure nodes of one tree apart. -/
theorem base_eq_of_low {build : ℕ} {next : UInt16} {s s' : Pfssnode}
    (hs : s ∈ (procfsStructureInit build next).nodes)
    (hs' : s' ∈ (procfsStructureInit build next).nodes) (hne : s.psnAddr ≠ 0)
    (hne' : s'.psnAddr ≠ 0) (h : s.psnBaseNodeId.toNat % 256 = s'.psnBaseNodeId.toNat % 256) :
    s.psnBaseNodeId = s'.psnBaseNodeId := by
  have hlt := psnAddr_lt hs
  have hlt' := psnAddr_lt hs'
  have hbase := psnBaseNodeId_eq hs hne
  have hbase' := psnBaseNodeId_eq hs' hne'
  rw [hbase, hbase', UInt16.toNat_add, UInt16.toNat_add, UInt16.toNat_ofNat',
    UInt16.toNat_ofNat'] at h
  -- there are 174 of them, in a row
  have haddr : s.psnAddr = s'.psnAddr := by omega
  rw [hbase, hbase', haddr]

/-- Two ids with base ids of one tree have the same file number if and only if they differ only
where they are covered. -/
theorem fileId_eq_iff {id id' : PfsId} (h : id.InRange) (h' : id'.InRange)
    (hlow : id.nodeidBaseId.toNat % 256 = id'.nodeidBaseId.toNat % 256 →
      id.nodeidBaseId = id'.nodeidBaseId) :
    id.fileId = id'.fileId ↔ Overlaid id id' := by
  obtain ⟨h0, h1, h2, h3⟩ := bytes_or id.nodeidBaseId.toNat_lt id.pidBits id.nodeidObjectid.toNat
  obtain ⟨h0', h1', h2', h3'⟩ :=
    bytes_or id'.nodeidBaseId.toNat_lt id'.pidBits id'.nodeidObjectid.toNat
  rw [← UInt64.toNat_inj, toNat_fileId h, toNat_fileId h', eq_iff_bytes, h0, h1, h2, h3, h0', h1',
    h2', h3']
  constructor
  · rintro ⟨hbyte, hpid, hmiddle, hobjectid⟩
    have hbase := hlow hbyte
    rw [← hbase] at hpid
    exact ⟨hbase, hpid, hmiddle, hobjectid⟩
  · intro hover
    rw [← hover.base]
    exact ⟨rfl, hover.pidLow, hover.pidMiddle, hover.objectid⟩

/-- The shell has a process id of 17 bits. -/
def wideShWorld : World :=
  { shWorld with procs := ProcTable.single { shProc with pPid := 70000 } (by decide) }

/-- Its directory. -/
def wideSh : Pfsnode :=
  ⟨1, ⟨70000, 0, 114⟩, ⟨0, 113, .proc, cstr "__Process__", 114, psnFlagProcess, some 0⟩, 0, .VDIR⟩

/-- The directory of its descriptors. -/
def wideShFd : Pfsnode :=
  ⟨1, ⟨70000, 0, 117⟩, ⟨0, 116, .dir, cstr "fd", 117, psnFlagProcess, some 113⟩, 0, .VDIR⟩

theorem reach_wideSh : Reach wideShWorld.tree (userCaller 501).pmp wideSh :=
  Reach.lookup wideShWorld ⟨501, 12⟩ [] (cstr "70000") ⟨true, none, none⟩ rfl reach_shRoot
    (tableReached_nil _ _) (by decide +kernel)

theorem reach_wideShFd : Reach wideShWorld.tree (userCaller 501).pmp wideShFd :=
  Reach.lookup wideShWorld ⟨501, 12⟩ [] (cstr "fd") ⟨true, none, none⟩ rfl reach_wideSh
    (tableReached_nil _ _) (by decide +kernel)

/-- Two nodes of one mount, other than its root, that have different ids have different file
numbers if and only if the ids differ in a bit that is not covered. -/
theorem fileIds_apart_iff {build : ℕ} {next : UInt16} {pmp : Pfsmount} {n n' : Pfsnode}
    (hreach : Reach (procfsStructureInit build next) pmp n)
    (hreach' : Reach (procfsStructureInit build next) pmp n')
    (hroot : n.nodeStructureNode.psnNodeType ≠ .root)
    (hroot' : n'.nodeStructureNode.psnNodeType ≠ .root)
    (h : n.nodeId.InRange) (h' : n'.nodeId.InRange) :
    (n.nodeId ≠ n'.nodeId → n.nodeId.fileId ≠ n'.nodeId.fileId) ↔
      n.nodeId = n'.nodeId ∨ ¬ Overlaid n.nodeId n'.nodeId := by
  have hplaced := (hreach.placed rfl).1
  have hplaced' := (hreach'.placed rfl).1
  have hne : ∀ {pnp : Pfsnode}, Placed (procfsStructureInit build next) pnp →
      pnp.nodeStructureNode.psnNodeType ≠ .root → pnp.nodeStructureNode.psnAddr ≠ 0 := by
    intro pnp hplaced hroot hzero
    rw [eq_root_of_psnAddr hplaced.mem hzero] at hroot
    exact hroot rfl
  have hlow : n.nodeId.nodeidBaseId.toNat % 256 = n'.nodeId.nodeidBaseId.toNat % 256 →
      n.nodeId.nodeidBaseId = n'.nodeId.nodeidBaseId := by
    rw [hplaced.base_eq, hplaced'.base_eq]
    exact base_eq_of_low hplaced.mem hplaced'.mem (hne hplaced hroot) (hne hplaced' hroot')
  rw [Ne, Ne, fileId_eq_iff h h' hlow, imp_iff_not_or, not_not]

/-- The two directories have different file numbers. -/
theorem fileIds_apart_wideSh :
    Reach wideShWorld.tree (userCaller 501).pmp wideSh ∧
      Reach wideShWorld.tree (userCaller 501).pmp wideShFd ∧
      wideSh.nodeId.fileId ≠ wideShFd.nodeId.fileId := by
  have hrange : wideSh.nodeId.InRange := ⟨Or.inr (by decide), by decide⟩
  have hrange' : wideShFd.nodeId.InRange := ⟨Or.inr (by decide), by decide⟩
  refine ⟨reach_wideSh, reach_wideShFd, (fileIds_apart_iff reach_wideSh reach_wideShFd (by decide)
    (by decide) hrange hrange').mpr (Or.inr fun hover => ?_) (by decide)⟩
  exact absurd hover.base (by decide)

/-- Its descriptors 0 and 1 have the same one: the top bit of the process id covers the lowest
bit of the descriptor. -/
theorem descriptors_share_fileId :
    ∃ n n' : Pfsnode, Reach wideShWorld.tree (userCaller 501).pmp n ∧
      Reach wideShWorld.tree (userCaller 501).pmp n' ∧ n.nodeStructureNode.psnNodeType = .fd ∧
      n'.nodeStructureNode.psnNodeType = .fd ∧ n.nodeId.InRange ∧ n'.nodeId.InRange ∧
      n.nodeId ≠ n'.nodeId ∧ n.nodeId.fileId = n'.nodeId.fileId := by
  let file : Pfssnode := ⟨0, 119, .fd, cstr "__File__", 120, psnFlagProcess, some 116⟩
  refine ⟨⟨1, ⟨70000, 0, 120⟩, file, 0, .VDIR⟩, ⟨1, ⟨70000, 1, 120⟩, file, 0, .VDIR⟩, ?_, ?_,
    rfl, rfl,
    ⟨Or.inr (by decide), by decide⟩, ⟨Or.inr (by decide), by decide⟩, by decide, by decide⟩
  · exact Reach.lookup wideShWorld ⟨501, 12⟩ [] (cstr "0") ⟨true, none, none⟩ rfl reach_wideShFd
      (tableReached_nil _ _) (by decide +kernel)
  · exact Reach.lookup wideShWorld ⟨501, 12⟩ [] (cstr "1") ⟨true, none, none⟩ rfl reach_wideShFd
      (tableReached_nil _ _) (by decide +kernel)

end ProcFS
