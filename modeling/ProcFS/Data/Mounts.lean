import Mathlib.Data.List.Infix
import ProcFS.Lib.Visit
import ProcFS.SysctlName
import ProcFS.Text
import ProcFS.Transfer

/-!
# ProcFS.Data.Mounts — one list of mounts in three nodes

`/proc/mtab`, `/proc/filesystems` and, when IOKit has no answer, `/proc/partitions` are made by
callbacks of `vfs_iterate`. None of the callbacks stops the iteration.

Nothing in `/proc/mtab` is escaped, so it can be read back if and only if no name has a blank or a
newline in it. When that is so the three nodes tell the same: the types of `/proc/filesystems` and
the devices of `/proc/partitions` are those of `/proc/mtab`.

* `procfsMtabOptions_eq`: the options always fit.
* `mtab_read_back_iff`: when `/proc/mtab` can be read back.
* `mounts_agree`: then the three nodes tell the same.
-/

namespace ProcFS.Data

open Lib

/-! ## Mounts -/

def mfstypenamelen : ℕ := 16

/-- `struct vfsstatfs`, as far as it is read. -/
structure MountStat where
  fMntfromname : CString
  fMntonname : CString
  fFstypename : CString
  fFlags : UInt64
  /-- `f_fsid.val[0]` -/
  fsid : Int32
  fBlocks : UInt64
  fBsize : UInt32
  typeFits : fFstypename.length < mfstypenamelen

/-- What `vfs_statfs` gives for the mounts, which may be nothing. -/
abbrev MountList := List (Option MountStat)

/-! ## `/proc/mtab` -/

/-- The flags in the table of `procfs_mtab_options`. -/
inductive MntFlag where
  | nosuid
  | nodev
  | noexec
  | sync
  | async
  | noatime
  | union
  | journaled
  | local
  | nobrowse
deriving DecidableEq, Repr

def MntFlag.flag : MntFlag → UInt64
  | .nosuid => 0x00000008
  | .nodev => 0x00000010
  | .noexec => 0x00000004
  | .sync => 0x00000002
  | .async => 0x00000040
  | .noatime => 0x10000000
  | .union => 0x00000020
  | .journaled => 0x00800000
  | .local => 0x00001000
  | .nobrowse => 0x00100000

def MntFlag.opt : MntFlag → CString
  | .nosuid => cstr ",nosuid"
  | .nodev => cstr ",nodev"
  | .noexec => cstr ",noexec"
  | .sync => cstr ",sync"
  | .async => cstr ",async"
  | .noatime => cstr ",noatime"
  | .union => cstr ",union"
  | .journaled => cstr ",journaled"
  | .local => cstr ",local"
  | .nobrowse => cstr ",nobrowse"

def mntFlags : List MntFlag :=
  [.nosuid, .nodev, .noexec, .sync, .async, .noatime, .union, .journaled, .local, .nobrowse]

/-- `strlcat` behind a text that fits. -/
def strlcat (cap : ℕ) (out s : CString) : CString := (out ++ s).take (cap - 1)

/-- `MNT_RDONLY`. -/
def rdonly (flags : UInt64) : Bool := flags &&& 1 ≠ 0

def procfsMtabOptions (flags : UInt64) (cap : ℕ) : CString :=
  mntFlags.foldl (fun out f => if flags &&& f.flag ≠ 0 then strlcat cap out f.opt else out)
    (strlcpy cap (if rdonly flags then cstr "ro" else cstr "rw"))

/-- The line of a mount; the options are made in a buffer of 160 bytes. -/
def mtabLine (st : MountStat) : CString :=
  st.fMntfromname ++ cstr " " ++ st.fMntonname ++ cstr " " ++ st.fFstypename ++ cstr " " ++
    procfsMtabOptions st.fFlags 160 ++ cstr " 0 0\n"

def procfsMtabCb (mp : Option MountStat) (sb : CString) : CString × Bool :=
  match mp with
  | none => (sb, false)
  | some st => (sb ++ mtabLine st, false)

/-- `procfs_domtab`, up to `procfs_copy_data`. -/
def procfsDomtab (sbufNew : Bool) (mounts : MountList) : Except Int32 CString :=
  if sbufNew then .ok (visit procfsMtabCb mounts []) else .error Transfer.enomem

/-! ## `/proc/filesystems` -/

def nodevTypes : List CString :=
  ["devfs", "procfs", "autofs", "nullfs", "fdesc", "tmpfs", "mtmfs", "lifs", "bindfs",
    "webdav", "nfs", "smbfs", "ftp"].map cstr

/-- `strncmp(s, t, MFSTYPENAMELEN) == 0`. -/
def sameType (s t : CString) : Bool := s.take mfstypenamelen = t.take mfstypenamelen

def procfsFsIsNodev (type : CString) : Bool := nodevTypes.any (sameType type)

/-- The number of names that `struct procfs_fstypes_ctx` has room for. -/
def fstypesMax : ℕ := 32

/-- `procfs_fstypes_cb`, with the names that are in use. -/
def procfsFstypesCb (mp : Option MountStat) (names : List CString) : List CString × Bool :=
  match mp with
  | none => (names, false)
  | some st =>
    if names.any (sameType · st.fFstypename) then (names, false)
    else if names.length < fstypesMax then
      (names ++ [strlcpy mfstypenamelen st.fFstypename], false)
    else (names, false)

/-- `procfs_dofilesystems`, up to `procfs_copy_data`. -/
def procfsDofilesystems (sbufNew : Bool) (mounts : MountList) : Except Int32 CString :=
  let names := visit procfsFstypesCb mounts []
  if sbufNew then
    .ok (names.flatMap fun name =>
      (if procfsFsIsNodev name then cstr "nodev" else []) ++ cstr "\t" ++ name ++ cstr "\n")
  else .error Transfer.enomem

/-! ## `/proc/partitions` -/

def devMajor (dev : Int32) : ℕ := ((dev.toUInt32 >>> 24) &&& 0xff).toNat
def devMinor (dev : Int32) : ℕ := (dev.toUInt32 &&& 0xffffff).toNat

/-- `"%4d %7d %10llu %s\n"`. -/
def partitionLine (vmaj vmin : ℕ) (blocks : UInt64) (name : CString) : CString :=
  decField 4 vmaj ++ cstr " " ++ decField 7 vmin ++ cstr " " ++ decField 10 blocks.toNat ++
    cstr " " ++ name ++ cstr "\n"

/-- The number of blocks of 1024 bytes. -/
def MountStat.kblocks (st : MountStat) : UInt64 := (st.fBlocks * st.fBsize.toUInt64) >>> 10

def procfsPartitionsCb (mp : Option MountStat) (sb : CString) : CString × Bool :=
  match mp with
  | none => (sb, false)
  | some st =>
    if st.fMntfromname.take 5 ≠ cstr "/dev/" then (sb, false)
    else
      (sb ++ partitionLine (devMajor st.fsid) (devMinor st.fsid) st.kblocks
        (st.fMntfromname.drop 5), false)

/-- `struct procfs_partition`. -/
structure Partition where
  vmaj : UInt32
  vmin : UInt32
  size : UInt64
  name : CString
deriving DecidableEq, Repr

/-- `procfs_dopartitions`, up to `procfs_copy_data`. `iokit` is what `procfs_iokit_get_partitions`
found, if there is memory for it and it succeeded. -/
def procfsDopartitions (sbufNew : Bool) (iokit : Option (List Partition)) (mounts : MountList) :
    Except Int32 CString :=
  if sbufNew then
    let header := cstr "major minor  #blocks  name\n\n"
    let parts := iokit.getD []
    if parts ≠ [] then
      .ok (header ++ parts.flatMap fun p =>
        partitionLine p.vmaj.toNat p.vmin.toNat (p.size / 1024) p.name)
    else .ok (visit procfsPartitionsCb mounts header)
  else .error Transfer.enomem

/-! ## The texts -/

/-- The mounts that are looked at. -/
def MountList.seen (mounts : MountList) : List MountStat := mounts.filterMap id

/-- A mount without a record is passed over by each of the callbacks. -/
theorem visit_seen {σ : Type} {cb : Option MountStat → σ → σ × Bool}
    (hnone : ∀ s, cb none s = (s, false)) (mounts : MountList) (s : σ) :
    visit cb mounts s = visit (fun st => cb (some st)) mounts.seen s := by
  induction mounts generalizing s with
  | nil => rfl
  | cons mp mounts ih =>
    cases mp with
    | none =>
      rw [visit, hnone]
      exact ih s
    | some st =>
      show (if (cb (some st) s).2 then _ else _) = if (cb (some st) s).2 then _ else _
      rw [ih]
      rfl

theorem visit_mtabCb (mounts : MountList) :
    visit procfsMtabCb mounts [] = mounts.seen.flatMap mtabLine := by
  rw [visit_seen fun _ => rfl, visit_eq_foldl fun _ _ => rfl]
  exact foldl_append_eq mtabLine mounts.seen []

/-- The mounts of devices. -/
def MountStat.onDevice (st : MountStat) : Bool := st.fMntfromname.take 5 = cstr "/dev/"

def MountStat.partition (st : MountStat) : CString :=
  partitionLine (devMajor st.fsid) (devMinor st.fsid) st.kblocks (st.fMntfromname.drop 5)

theorem visit_partitionsCb (mounts : MountList) (sb : CString) :
    visit procfsPartitionsCb mounts sb =
      sb ++ (mounts.seen.filter MountStat.onDevice).flatMap MountStat.partition := by
  rw [visit_seen fun _ => rfl, visit_eq_foldl]
  · have hline : ∀ st sb, (procfsPartitionsCb (some st) sb).1 =
        sb ++ if st.onDevice then st.partition else [] := by
      intro st sb
      by_cases hdev : st.fMntfromname.take 5 = cstr "/dev/"
      · simp [procfsPartitionsCb, MountStat.onDevice, MountStat.partition, hdev]
      · simp [procfsPartitionsCb, MountStat.onDevice, hdev]
    simp only [hline]
    rw [foldl_append_eq, flatMap_filter]
  · intro st sb
    rw [procfsPartitionsCb]
    split <;> rfl

/-! ### The types -/

/-- Two types that fit are the same for `strncmp` if they are equal. -/
theorem sameType_iff {s t : CString} (hs : s.length < mfstypenamelen)
    (ht : t.length < mfstypenamelen) :
    sameType s t = true ↔ s = t := by
  rw [sameType, List.take_of_length_le (Nat.le_of_lt hs), List.take_of_length_le (Nat.le_of_lt ht)]
  exact decide_eq_true_iff

/-- A type is in a list of types that fit if `strncmp` finds it there. -/
theorem any_sameType_iff {types : List CString} (htypes : ∀ t ∈ types, t.length < mfstypenamelen)
    {type : CString} (hfits : type.length < mfstypenamelen) :
    types.any (sameType · type) = true ↔ type ∈ types := by
  rw [List.any_eq_true]
  constructor
  · rintro ⟨t, ht, hsame⟩
    exact (sameType_iff (htypes t ht) hfits).mp hsame ▸ ht
  · intro hmem
    exact ⟨type, hmem, (sameType_iff hfits hfits).mpr rfl⟩

theorem sameType_comm (s t : CString) : sameType s t = sameType t s := by
  rw [sameType, sameType, decide_eq_decide]
  exact eq_comm

theorem strlcpy_type {s : CString} (hs : s.length < mfstypenamelen) :
    strlcpy mfstypenamelen s = s := List.take_of_length_le (Nat.le_pred_of_lt hs)

theorem procfsFsIsNodev_iff {type : CString} (hfits : type.length < mfstypenamelen) :
    procfsFsIsNodev type = true ↔ type ∈ nodevTypes := by
  have hall : ∀ t ∈ nodevTypes, t.length < mfstypenamelen := by decide
  have hcomm : sameType type = (sameType · type) := funext fun t => sameType_comm type t
  rw [procfsFsIsNodev, hcomm, any_sameType_iff hall hfits]

/-- The names that are collected: the first of each type, as far as there is room. -/
theorem foldl_fstypesCb (sts : List MountStat) {names : List CString}
    (hnames : ∀ t ∈ names, t.length < mfstypenamelen) (hroom : names.length ≤ fstypesMax) :
    sts.foldl (fun names st => (procfsFstypesCb (some st) names).1) names =
      (names ++ ((sts.map MountStat.fFstypename).filter (· ∉ names)).eraseDups).take
        fstypesMax := by
  induction sts generalizing names with
  | nil =>
    rw [List.foldl_nil, List.map_nil, List.filter_nil, List.eraseDups_nil, List.append_nil,
      List.take_of_length_le hroom]
  | cons st sts ih =>
    have hany := any_sameType_iff hnames st.typeFits
    rw [List.foldl_cons, procfsFstypesCb, List.map_cons]
    -- a type that is known already, and a new one
    by_cases hmem : st.fFstypename ∈ names
    · rw [if_pos (hany.mpr hmem), ih hnames hroom, List.filter_cons_of_neg (by simpa using hmem)]
    · rw [if_neg (fun h => hmem (hany.mp h)), List.filter_cons_of_pos (by simpa using hmem),
        List.eraseDups_cons, List.filter_filter]
      split
      · rename_i hlt
        have hnames' : ∀ t ∈ names ++ [st.fFstypename], t.length < mfstypenamelen := by
          simpa [or_imp, forall_and] using ⟨hnames, st.typeFits⟩
        have hfilter : ((sts.map MountStat.fFstypename).filter (· ∉ names ++ [st.fFstypename])) =
            (sts.map MountStat.fFstypename).filter
              fun t => (t != st.fFstypename) && decide (t ∉ names) := by
          refine List.filter_congr fun t _ => ?_
          simp [bne, beq_eq_decide, and_comm]
        rw [strlcpy_type st.typeFits, ih hnames' (by rwa [List.length_append]), hfilter,
          List.append_assoc]
        rfl
      · -- the array is full: nothing is added any more
        rename_i hge
        have hfull : fstypesMax ≤ names.length := Nat.le_of_not_lt hge
        rw [ih hnames hroom, List.take_append_of_le_length hfull,
          List.take_append_of_le_length hfull]

theorem visit_fstypesCb (mounts : MountList) :
    visit procfsFstypesCb mounts [] =
      (mounts.seen.map MountStat.fFstypename).eraseDups.take fstypesMax := by
  rw [visit_seen fun _ => rfl, visit_eq_foldl, foldl_fstypesCb _ (by simp) (Nat.zero_le _)]
  · simp
  · intro st names
    rw [procfsFstypesCb]
    split
    · rfl
    · split <;> rfl

/-! ### The options -/

def setFlags (flags : UInt64) : List MntFlag := mntFlags.filter fun f => flags &&& f.flag ≠ 0

/-- An option without its comma. -/
def MntFlag.word (f : MntFlag) : CString := f.opt.tail

theorem MntFlag.opt_eq (f : MntFlag) : f.opt = 44 :: f.word := by
  cases f <;> rfl

/-- Options that fit are all appended. -/
theorem foldl_strlcat (cap : ℕ) (p : MntFlag → Bool) (fs : List MntFlag) {out : CString}
    (hfits : out.length + (fs.map fun f => f.opt.length).sum < cap) :
    fs.foldl (fun out f => if p f then strlcat cap out f.opt else out) out =
      out ++ (fs.filter p).flatMap MntFlag.opt := by
  induction fs generalizing out with
  | nil => exact (List.append_nil out).symm
  | cons f fs ih =>
    rw [List.map_cons, List.sum_cons] at hfits
    rw [List.foldl_cons, List.filter_cons]
    split
    · have hlen : (out ++ f.opt).length = out.length + f.opt.length := List.length_append
      have hcat : strlcat cap out f.opt = out ++ f.opt := List.take_of_length_le (by omega)
      rw [hcat, ih (by omega), List.flatMap_cons, List.append_assoc]
    · exact ih (by omega)

/-- What stands first among the options. -/
def rdonlyWord (ro : Bool) : CString := if ro then cstr "ro" else cstr "rw"

theorem intercalate_words (w : CString) (fs : List MntFlag) :
    [44].intercalate (w :: fs.map MntFlag.word) = w ++ fs.flatMap MntFlag.opt := by
  induction fs generalizing w with
  | nil => rw [List.map_nil, List.intercalate_singleton, List.flatMap_nil, List.append_nil]
  | cons f fs ih =>
    rw [List.map_cons, List.intercalate_cons_cons, ih, List.flatMap_cons, MntFlag.opt_eq]
    simp

/-- The options always fit into the buffer. -/
theorem procfsMtabOptions_eq (flags : UInt64) :
    procfsMtabOptions flags 160 =
      [44].intercalate (rdonlyWord (rdonly flags) :: (setFlags flags).map MntFlag.word) := by
  have hstart : strlcpy 160 (rdonlyWord (rdonly flags)) = rdonlyWord (rdonly flags) ∧
      (rdonlyWord (rdonly flags)).length = 2 := by
    cases rdonly flags <;> exact ⟨rfl, rfl⟩
  have hsum : (mntFlags.map fun f => f.opt.length).sum = 70 := rfl
  rw [intercalate_words, setFlags, ← foldl_strlcat 160 _ mntFlags (by omega), procfsMtabOptions,
    ← rdonlyWord, hstart.1]
  simp only [decide_eq_true_eq]

/-! ## Reading `/proc/mtab` -/

structure MtabEntry where
  device : CString
  dir : CString
  type : CString
  rdonly : Bool
  flags : List MntFlag
deriving DecidableEq, Repr

def readMntFlag (w : CString) : Option MntFlag := mntFlags.find? fun f => f.word = w

def readRdonly (w : CString) : Option Bool := [true, false].find? fun ro => rdonlyWord ro = w

/-- Options with commas between them. -/
def readOptions (s : CString) : Option (Bool × List MntFlag) :=
  match s.splitOn 44 with
  | [] => none
  | w :: ws => do
    let ro ← readRdonly w
    let flags ← ws.mapM readMntFlag
    return (ro, flags)

/-- Six fields with blanks between them, of which the last two are 0. -/
def readMtabLine (line : CString) : Option MtabEntry :=
  match line.splitOn 32 with
  | [device, dir, type, opts, freq, passno] => do
    let (ro, flags) ← readOptions opts
    if freq = cstr "0" ∧ passno = cstr "0" then some ⟨device, dir, type, ro, flags⟩ else none
  | _ => none

def readMtab (text : CString) : Option (List MtabEntry) := (linesOf 10 text).mapM readMtabLine

/-- What there is to read about a mount. -/
def MountStat.entry (st : MountStat) : MtabEntry :=
  ⟨st.fMntfromname, st.fMntonname, st.fFstypename, rdonly st.fFlags, setFlags st.fFlags⟩

def MountStat.names (st : MountStat) : List CString :=
  [st.fMntfromname, st.fMntonname, st.fFstypename]

/-- No name has the separators of the format in it. -/
def MountStat.Plain (st : MountStat) : Prop := ∀ name ∈ st.names, 32 ∉ name ∧ 10 ∉ name

theorem MountStat.Plain.device {st : MountStat} (h : st.Plain) :
    32 ∉ st.fMntfromname.drop 5 ∧ 10 ∉ st.fMntfromname.drop 5 := by
  obtain ⟨hblank, hnewline⟩ := h st.fMntfromname (by simp [names])
  exact ⟨fun hmem => hblank (List.mem_of_mem_drop hmem), fun hmem =>
    hnewline (List.mem_of_mem_drop hmem)⟩

theorem MountStat.Plain.type {st : MountStat} (h : st.Plain) : 10 ∉ st.fFstypename :=
  (h st.fFstypename (by simp [names])).2

theorem readOptions_options (flags : UInt64) :
    readOptions (procfsMtabOptions flags 160) = some (rdonly flags, setFlags flags) := by
  have hwords : ∀ f : MntFlag, 44 ∉ f.word ∧ readMntFlag f.word = some f := by
    intro f
    cases f <;> exact ⟨by decide, rfl⟩
  have hro : ∀ ro, 44 ∉ rdonlyWord ro ∧ readRdonly (rdonlyWord ro) = some ro := by
    intro ro
    cases ro <;> exact ⟨by decide, rfl⟩
  have hsplit : ([44].intercalate
      (rdonlyWord (rdonly flags) :: (setFlags flags).map MntFlag.word)).splitOn 44 =
      rdonlyWord (rdonly flags) :: (setFlags flags).map MntFlag.word :=
    List.splitOn_intercalate 44 (by simp [hwords, hro]) (List.cons_ne_nil _ _)
  have hread : ((setFlags flags).map MntFlag.word).mapM readMntFlag = some (setFlags flags) := by
    rw [mapM_map_eq_some fun f _ => (hwords f).2, List.map_id']
  rw [readOptions, procfsMtabOptions_eq, hsplit]
  simp [hro, hread]

theorem notMem_options {sep : UInt8} (hsep : sep = 32 ∨ sep = 10) (flags : UInt64) :
    sep ∉ procfsMtabOptions flags 160 := by
  rw [procfsMtabOptions_eq]
  refine notMem_intercalate (by rcases hsep with rfl | rfl <;> decide) ?_
  have hwords : ∀ f : MntFlag, sep ∉ f.word := by
    intro f
    rcases hsep with rfl | rfl <;> cases f <;> decide
  have hro : ∀ ro, sep ∉ rdonlyWord ro := by
    intro ro
    rcases hsep with rfl | rfl <;> cases ro <;> decide
  simp [hwords, hro]

def MountStat.fields (st : MountStat) : List CString :=
  st.names ++ [procfsMtabOptions st.fFlags 160, cstr "0", cstr "0"]

def MountStat.body (st : MountStat) : CString := [32].intercalate st.fields

theorem mtabLine_eq (st : MountStat) : mtabLine st = st.body ++ [10] := by
  have hend : cstr " 0 0\n" = [32, 48, 32, 48, 10] := rfl
  have hblank : cstr " " = [32] := rfl
  have hzero : cstr "0" = [48] := rfl
  simp [mtabLine, MountStat.body, MountStat.fields, MountStat.names, hend, hblank, hzero,
    List.intercalate_cons_cons]

/-- A line is read back if and only if no name has a blank in it: it has six fields only then. -/
theorem readMtabLine_body_iff (st : MountStat) :
    readMtabLine st.body = some st.entry ↔ ∀ name ∈ st.names, 32 ∉ name := by
  have hoptions := notMem_options (.inl rfl) st.fFlags
  constructor
  · intro hread
    have hfields : (st.body.splitOn 32).length = 6 := by
      rw [readMtabLine] at hread
      split at hread
      · rename_i hsplit
        rw [hsplit]
        rfl
      · cases hread
    -- five blanks are between the fields, so any other one makes a seventh field
    have hcount : st.body.count 32 =
        5 + (st.fMntfromname.count 32 + st.fMntonname.count 32 + st.fFstypename.count 32) := by
      have hzero : (cstr "0").count 32 = 0 := rfl
      simp only [MountStat.body, MountStat.fields, MountStat.names, List.cons_append,
        List.nil_append,
        List.intercalate_cons_cons, List.intercalate_singleton, List.count_append, hzero,
        List.count_eq_zero.mpr hoptions, List.count_singleton_self]
      omega
    rw [length_splitOn, hcount] at hfields
    have hnone : st.fMntfromname.count 32 = 0 ∧ st.fMntonname.count 32 = 0 ∧
        st.fFstypename.count 32 = 0 := by omega
    simpa [MountStat.names, List.count_eq_zero] using hnone
  · intro hplain
    -- and without one the fields come apart where they were joined
    have hclean : ∀ f ∈ st.fields, 32 ∉ f := by
      have hzero : 32 ∉ cstr "0" := by decide
      intro f hf
      rcases List.mem_append.mp hf with hf | hf
      · exact hplain f hf
      · simp only [List.mem_cons, List.not_mem_nil, or_false] at hf
        rcases hf with rfl | rfl | rfl
        · exact hoptions
        · exact hzero
        · exact hzero
    have hsplit : st.body.splitOn 32 = st.fields :=
      List.splitOn_intercalate 32 hclean (by simp [MountStat.fields])
    rw [readMtabLine, hsplit]
    simp [MountStat.fields, MountStat.names, MountStat.entry, readOptions_options]

theorem notMem_body {st : MountStat} (h : ∀ name ∈ st.names, 10 ∉ name) : 10 ∉ st.body := by
  refine notMem_intercalate (by decide) ?_
  have hzero : 10 ∉ cstr "0" := by decide
  simpa [MountStat.fields, or_imp, forall_and, notMem_options (.inr rfl) st.fFlags, hzero] using h

theorem notMem_names {st : MountStat} (h : 10 ∉ st.body) : ∀ name ∈ st.names, 10 ∉ name := by
  simp only [MountStat.body, MountStat.fields, MountStat.names, List.cons_append, List.nil_append,
    List.intercalate_cons_cons, List.mem_append, not_or] at h
  simp [MountStat.names, h]

theorem mtab_text (mounts : MountList) :
    (procfsDomtab true mounts).toOption.bind readMtab =
      readMtab (mounts.seen.flatMap mtabLine) := by
  rw [← visit_mtabCb]
  rfl

theorem mtab_read_back {mounts : MountList} (hplain : ∀ st ∈ mounts.seen, st.Plain) :
    (procfsDomtab true mounts).toOption.bind readMtab = some (mounts.seen.map MountStat.entry) := by
  rw [mtab_text, readMtab]
  apply mapM_linesOf_flatMap MountStat.body
  · intro st _
    exact mtabLine_eq st
  · intro st hst
    exact notMem_body fun name hname => (hplain st hst name hname).2
  · intro st hst
    exact (readMtabLine_body_iff st).mpr fun name hname => (hplain st hst name hname).1

/-- What a program reads in `/proc/mtab` is the list of mounts, in its order and with the flags of
each, if and only if no name of a mount has a blank or a newline in it. -/
theorem mtab_read_back_iff (mounts : MountList) :
    (procfsDomtab true mounts).toOption.bind readMtab = some (mounts.seen.map MountStat.entry) ↔
      ∀ st ∈ mounts.seen, st.Plain := by
  refine ⟨?_, mtab_read_back⟩
  intro hread
  have hlines : mounts.seen.flatMap mtabLine = unlines 10 (mounts.seen.map MountStat.body) := by
    rw [unlines, List.flatMap_map]
    exact List.flatMap_congr fun st _ => mtabLine_eq st
  rw [mtab_text, readMtab, hlines] at hread
  -- as many lines as mounts
  have hcount := length_of_mapM hread
  rw [length_linesOf, List.length_map] at hcount
  have hclean := notMem_of_count_unlines (hcount.symm.trans (List.length_map _).symm)
  rw [linesOf_unlines hclean] at hread
  intro st hst name hname
  have hblank := (readMtabLine_body_iff st).mp (eq_some_of_mapM_map hread st hst)
  have hnewline := notMem_names (hclean _ (List.mem_map_of_mem hst))
  exact ⟨hblank name hname, hnewline name hname⟩

/-! ## Reading the other two -/

/-- A line of `/proc/filesystems`: whether the type needs no device, and its name. -/
def readFilesystemLine (line : CString) : Option (Bool × CString) := do
  let (mark, type) ← cutFirst 9 line
  if mark = cstr "nodev" then some (true, type)
  else if mark = [] then some (false, type)
  else none

def readFilesystems (text : CString) : Option (List (Bool × CString)) :=
  (linesOf 10 text).mapM readFilesystemLine

structure PartitionEntry where
  vmaj : ℕ
  vmin : ℕ
  blocks : ℕ
  name : CString
deriving DecidableEq, Repr

/-- The name stands behind the last blank. -/
def readPartitionLine (line : CString) : Option PartitionEntry := do
  let (numbers, name) ← cutLast 32 line
  match words 32 numbers with
  | [vmaj, vmin, blocks] => return ⟨← readNat vmaj, ← readNat vmin, ← readNat blocks, name⟩
  | _ => none

/-- The first two lines are the header. -/
def readPartitions (text : CString) : Option (List PartitionEntry) :=
  ((linesOf 10 text).drop 2).mapM readPartitionLine

def filesystemBody (type : CString) : CString :=
  (if procfsFsIsNodev type then cstr "nodev" else []) ++ 9 :: type

theorem notMem_filesystemBody {type : CString} (h : 10 ∉ type) : 10 ∉ filesystemBody type := by
  have hmark : 10 ∉ if procfsFsIsNodev type then cstr "nodev" else [] := by
    split <;> decide
  simp [filesystemBody, hmark, h]

theorem readFilesystemLine_body {type : CString} (hfits : type.length < mfstypenamelen) :
    readFilesystemLine (filesystemBody type) = some (decide (type ∈ nodevTypes), type) := by
  have hnodev := procfsFsIsNodev_iff hfits
  by_cases hmem : type ∈ nodevTypes
  · rw [filesystemBody, hnodev.mpr hmem, readFilesystemLine, if_pos rfl,
      cutFirst_append (by decide)]
    simp [hmem]
  · have hfalse : procfsFsIsNodev type = false := Bool.eq_false_iff.mpr fun h => hmem (hnodev.mp h)
    rw [filesystemBody, hfalse, readFilesystemLine, if_neg Bool.false_ne_true,
      cutFirst_append List.not_mem_nil]
    simp [hmem, cstr]

theorem filesystems_read_back {mounts : MountList} (hplain : ∀ st ∈ mounts.seen, st.Plain) :
    (procfsDofilesystems true mounts).toOption.bind readFilesystems =
      some (((mounts.seen.map MountStat.fFstypename).eraseDups.take fstypesMax).map fun type =>
        (decide (type ∈ nodevTypes), type)) := by
  have htypes : ∀ type ∈ (mounts.seen.map MountStat.fFstypename).eraseDups.take fstypesMax,
      10 ∉ type ∧ type.length < mfstypenamelen := by
    intro type htype
    have hmem := List.mem_eraseDups.mp (List.mem_of_mem_take htype)
    rcases List.mem_map.mp hmem with ⟨st, hst, rfl⟩
    exact ⟨(hplain st hst).type, st.typeFits⟩
  show readFilesystems ((visit procfsFstypesCb mounts []).flatMap _) = _
  rw [visit_fstypesCb, readFilesystems]
  apply mapM_linesOf_flatMap filesystemBody
  · intro type _
    have htab : cstr "\t" = [9] := rfl
    have hnewline : cstr "\n" = [10] := rfl
    simp [filesystemBody, htab, hnewline]
  · intro type htype
    exact notMem_filesystemBody (htypes type htype).1
  · intro type htype
    exact readFilesystemLine_body (htypes type htype).2

/-- A number in a field that is filled up with blanks. -/
theorem words_decField_append (w n : ℕ) (rest : CString) :
    words 32 (decField w n ++ 32 :: rest) = fmtNat n :: words 32 rest := by
  rw [decField, padLeft, List.append_assoc, words_replicate_append, ← fmtNat_eq,
    words_append (notMem_fmtNat rfl n) (digits_ne_nil 10 false n)]

def MountStat.partitionEntry (st : MountStat) : PartitionEntry :=
  ⟨devMajor st.fsid, devMinor st.fsid, st.kblocks.toNat, st.fMntfromname.drop 5⟩

def MountStat.partitionBody (st : MountStat) : CString :=
  decField 4 (devMajor st.fsid) ++ 32 :: (decField 7 (devMinor st.fsid) ++
    32 :: decField 10 st.kblocks.toNat) ++ 32 :: st.fMntfromname.drop 5

theorem partition_eq (st : MountStat) : st.partition = st.partitionBody ++ [10] := by
  have hblank : cstr " " = [32] := rfl
  have hnewline : cstr "\n" = [10] := rfl
  simp [MountStat.partition, partitionLine, MountStat.partitionBody, hblank, hnewline]

theorem notMem_decField (w n : ℕ) : (10 : UInt8) ∉ decField w n := by
  rw [decField, padLeft, List.mem_append, not_or]
  exact ⟨fun h => absurd (List.eq_of_mem_replicate h) (by decide), notMem_fmtNat rfl n⟩

theorem readPartitionLine_body {st : MountStat} (hplain : st.Plain) :
    readPartitionLine st.partitionBody = some st.partitionEntry := by
  have hlast : words 32 (decField 10 st.kblocks.toNat) = [fmtNat st.kblocks.toNat] := by
    rw [decField, padLeft, words_replicate_append, ← fmtNat_eq,
      words_singleton (notMem_fmtNat rfl _) (digits_ne_nil 10 false _)]
  rw [readPartitionLine, MountStat.partitionBody, cutLast_append _ hplain.device.1]
  simp [words_decField_append, hlast, readNat_fmtNat, MountStat.partitionEntry]

theorem notMem_partitionBody {st : MountStat} (hplain : st.Plain) : 10 ∉ st.partitionBody := by
  simp [MountStat.partitionBody, notMem_decField, hplain.device.2]

theorem partitions_read_back {mounts : MountList} (hplain : ∀ st ∈ mounts.seen, st.Plain) :
    (procfsDopartitions true none mounts).toOption.bind readPartitions =
      some ((mounts.seen.filter MountStat.onDevice).map MountStat.partitionEntry) := by
  show readPartitions (visit procfsPartitionsCb mounts (cstr "major minor  #blocks  name\n\n")) = _
  have hdevices : ∀ st ∈ mounts.seen.filter MountStat.onDevice, st.Plain := fun st hst =>
    hplain st (List.mem_of_mem_filter hst)
  have hheader : cstr "major minor  #blocks  name\n\n" =
      unlines 10 [cstr "major minor  #blocks  name", []] := by decide
  have hlines := linesOf_append_flatMap MountStat.partitionBody
    [cstr "major minor  #blocks  name", []] (by decide) (fun st _ => partition_eq st) fun st hst =>
      notMem_partitionBody (hdevices st hst)
  rw [visit_partitionsCb, readPartitions, hheader, hlines]
  exact mapM_map_eq_some fun st hst => readPartitionLine_body (hdevices st hst)

/-- If no name has a blank or a newline in it, the three nodes tell the same about the mounts: each
can be read, the types in `/proc/filesystems` are those in `/proc/mtab`, each once and in the order
of their first mounts, up to 32 of them, and the names in `/proc/partitions` are the devices in
`/proc/mtab` under `/dev`. -/
theorem mounts_agree {mounts : MountList} (hplain : ∀ st ∈ mounts.seen, st.Plain) :
    ∃ mtab filesystems partitions,
      (procfsDomtab true mounts).toOption.bind readMtab = some mtab ∧
      (procfsDofilesystems true mounts).toOption.bind readFilesystems = some filesystems ∧
      (procfsDopartitions true none mounts).toOption.bind readPartitions = some partitions ∧
      mtab.length = mounts.seen.length ∧
      filesystems = ((mtab.map MtabEntry.type).eraseDups.take 32).map (fun type =>
        (decide (type ∈ nodevTypes), type)) ∧
      partitions.map PartitionEntry.name =
        ((mtab.map MtabEntry.device).filter (·.take 5 = cstr "/dev/")).map (·.drop 5) := by
  refine ⟨_, _, _, mtab_read_back hplain, filesystems_read_back hplain, partitions_read_back hplain,
    List.length_map _, ?_, ?_⟩
  · rw [List.map_map]
    rfl
  · rw [List.map_map, List.map_map, List.filter_map, List.map_map]
    rfl

/-- A root and the devices, and a mount that is just going away. -/
def twoMounts : MountList :=
  [some ⟨cstr "/dev/disk1s1", cstr "/", cstr "apfs", 0x1000, 0x1000004, 4096, 4096, by decide⟩,
    none, some ⟨cstr "devfs", cstr "/dev", cstr "devfs", 0x100008, 0x2000000, 1, 512, by decide⟩]

theorem twoMounts_plain : ∀ st ∈ twoMounts.seen, st.Plain := by
  have hall : (twoMounts.seen.all fun st => st.names.all fun name =>
      decide (32 ∉ name) && decide (10 ∉ name)) = true := by decide
  simpa [List.all_eq_true, MountStat.Plain] using hall

theorem mounts_agree_twoMounts :
    (∀ st ∈ twoMounts.seen, st.Plain) ∧
      ∃ mtab filesystems partitions,
        (procfsDomtab true twoMounts).toOption.bind readMtab = some mtab ∧
        (procfsDofilesystems true twoMounts).toOption.bind readFilesystems = some filesystems ∧
        (procfsDopartitions true none twoMounts).toOption.bind readPartitions = some partitions ∧
        mtab.length = twoMounts.seen.length ∧
        filesystems = ((mtab.map MtabEntry.type).eraseDups.take 32).map (fun type =>
          (decide (type ∈ nodevTypes), type)) ∧
        partitions.map PartitionEntry.name =
          ((mtab.map MtabEntry.device).filter (·.take 5 = cstr "/dev/")).map (·.drop 5) :=
  ⟨twoMounts_plain, mounts_agree twoMounts_plain⟩

end ProcFS.Data
