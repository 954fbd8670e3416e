import Mathlib.Data.List.DropRight
import ProcFS.Lib.Bytes
import ProcFS.Lib.Keyed
import ProcFS.Lib.Printf
import ProcFS.Types

/-!
# ProcFS.Data.Devices — the tables of the device drivers

macOS has no registry of drivers. The daemon makes the tables from `/dev`: the name of an entry
without its number is the family, and stands for the driver. `/proc/devices` keeps one row for
each major number of a type, with the shortest of its families, and `/proc/tty/drivers` one
row for each major number, named after the first entry of it. Where two families are the
shortest, or a major number has terminals of two kinds, the order in which `readdir` returns the
entries shows.

* `devMajors_pairwise`: the major numbers come in increasing order.
* `buildDevicesBlob_perm_iff`: when `/proc/devices` does not show the order of `/dev`.
* `deviceListings_perm_iff`: when neither of the two tables does.
-/

namespace ProcFS.Data

open Lib (decField padRight digits Merge Qsort)

/-! ## Entries of `/dev` -/

/-- The types of files that are told apart: `S_ISCHR`, `S_ISBLK` and the others. -/
inductive DevMode
  | chr
  | blk
  | other
deriving DecidableEq, Repr

structure DevStat where
  stMode : DevMode
  stRdev : UInt32
deriving DecidableEq, Repr

/-- `major(st_rdev)`. -/
def DevStat.major (st : DevStat) : ℕ := ((st.stRdev >>> 24) &&& 0xff).toNat

/-- `minor(st_rdev)`. -/
def DevStat.minor (st : DevStat) : ℕ := (st.stRdev &&& 0xffffff).toNat

/-- An entry that `readdir` returns, and what `lstat` says about it unless it fails. -/
structure DevEntry where
  dName : CString
  lstat : Option DevStat
  noNul : 0 ∉ dName
deriving DecidableEq, Repr

/-- A string in an array of 64 characters. -/
abbrev Name64 := { s : CString // s.length < 64 }

/-! ## Families -/

/-- `.`, `_` or `-`. -/
def isSeparator (c : UInt8) : Bool := c == 46 || c == 95 || c == 45

/-- The body of `dev_family`. The last loop leaves the first character. -/
def devFamilyChars (name : CString) : CString :=
  match (name.takeWhile fun c => !isDigit c).take 63 with
  | [] => name.take 63
  | c :: rest => c :: rest.rdropWhile isSeparator

theorem length_devFamilyChars_lt (name : CString) : (devFamilyChars name).length < 64 := by
  rw [devFamilyChars]
  split
  · rw [List.length_take]
    omega
  · rename_i c rest heq
    have hlen := congrArg List.length heq
    have hle := (List.rdropWhile_prefix isSeparator rest).length_le
    rw [List.length_take, List.length_cons] at hlen
    rw [List.length_cons]
    omega

def devFamily (name : CString) : Name64 := ⟨devFamilyChars name, length_devFamilyChars_lt name⟩

example : (devFamily (cstr "disk0s1")).val = cstr "disk" := by decide

example : (devFamily (cstr "apfs-raw-device.0")).val = cstr "apfs-raw-device" := by decide

/-! ## `/proc/devices` -/

structure DevRow where
  major : ℕ
  isBlock : Bool
  name : Name64
deriving DecidableEq, Repr

/-- What the loop of `build_devices_blob` inserts for an entry, if it does not go on to the
next one before. -/
def devNode (e : DevEntry) : Option DevRow :=
  if e.dName.head? = some 46 then none
  else
    e.lstat.bind fun st =>
      match st.stMode with
      | .chr => some ⟨st.major, false, devFamily e.dName⟩
      | .blk => some ⟨st.major, true, devFamily e.dName⟩
      | .other => none

/-- The rows of `/proc/devices`: one for each major number of a type, with the shortest family
name. -/
def devMerge : Merge DevRow (ℕ × Bool) DevRow where
  entryKey x := (x.major, x.isBlock)
  rowKey r := (r.major, r.isBlock)
  first x := x
  again r x := if x.name.val.length < r.name.val.length then { r with name := x.name } else r
  rowKey_first _ := rfl
  rowKey_again r x := by split_ifs <;> rfl

def devInsert (rows : List DevRow) (x : DevRow) : List DevRow := devMerge.insert rows x

def devrowCmp (a b : DevRow) : Ordering := compare a.major b.major

/-- `"%3d %s\n"`. -/
def devLine (number : ℕ) (name : Name64) : List UInt8 :=
  decField 3 number ++ cstr " " ++ name.val ++ cstr "\n"

def buildDevicesBlob (qsort : Qsort devrowCmp) (entries : List DevEntry) : List UInt8 :=
  let rows := qsort.sort (entries.foldl (fun rows e => (devNode e).elim rows (devInsert rows)) [])
  cstr "Character devices:\n" ++
    ((rows.filter fun r => !r.isBlock).flatMap fun r => devLine r.major r.name) ++
    cstr "\nBlock devices:\n" ++
    (rows.filter fun r => r.isBlock).flatMap fun r => devLine r.major r.name

/-! ## `/proc/tty/drivers` -/

def ttyIsName (n : CString) : Bool :=
  (cstr "tty").isPrefixOf n || (cstr "cu.").isPrefixOf n || (cstr "pty").isPrefixOf n ||
    (cstr "ptm").isPrefixOf n || n == cstr "console"

def ttyFamilyChars (name : CString) : CString :=
  match (name.take 63).takeWhile fun c => !(c == 46 || isDigit c) with
  | [] => name.take 63
  | c :: rest => c :: rest

theorem length_ttyFamilyChars_lt (name : CString) : (ttyFamilyChars name).length < 64 := by
  rw [ttyFamilyChars]
  split
  · rw [List.length_take]
    omega
  · rename_i c rest heq
    have hle := (List.takeWhile_prefix (fun c => !(c == 46 || isDigit c))
      (l := name.take 63)).length_le
    rw [heq, List.length_take] at hle
    omega

def ttyFamily (name : CString) : Name64 := ⟨ttyFamilyChars name, length_ttyFamilyChars_lt name⟩

inductive TtyType
  | system
  | console
  | serial
  | ptyMaster
  | ptySlave
deriving DecidableEq, Repr

def TtyType.text : TtyType → CString
  | .system => cstr "system"
  | .console => cstr "console"
  | .serial => cstr "serial"
  | .ptyMaster => cstr "pty:master"
  | .ptySlave => cstr "pty:slave"

def ttyType (n : CString) : TtyType :=
  if n = cstr "console" then .console
  else if (cstr "cu.").isPrefixOf n || (cstr "tty.").isPrefixOf n then .serial
  else if (cstr "ptm").isPrefixOf n || (cstr "pty").isPrefixOf n then .ptyMaster
  else if n = cstr "tty" then .system
  else if (cstr "tty").isPrefixOf n then .ptySlave
  else .system

/-- An entry that gets as far as the table. -/
structure TtyNode where
  major : ℕ
  minor : ℕ
  dName : CString
deriving DecidableEq, Repr

def ttyNode (e : DevEntry) : Option TtyNode :=
  if e.dName.head? = some 46 || !ttyIsName e.dName then none
  else
    e.lstat.bind fun st =>
      if st.stMode = .chr then some ⟨st.major, st.minor, e.dName⟩ else none

structure TtyRow where
  major : ℕ
  min : ℕ
  max : ℕ
  name : Name64
  type : TtyType
deriving DecidableEq, Repr

/-- The rows of `/proc/tty/drivers`: one for each major number, with the range of its minor
numbers. -/
def ttyMerge : Merge TtyNode ℕ TtyRow where
  entryKey x := x.major
  rowKey r := r.major
  first x := ⟨x.major, x.minor, x.minor, ttyFamily x.dName, ttyType x.dName⟩
  again r x :=
    { r with
      min := if x.minor < r.min then x.minor else r.min
      max := if r.max < x.minor then x.minor else r.max }
  rowKey_first _ := rfl
  rowKey_again _ _ := rfl

def ttyrowCmp (a b : TtyRow) : Ordering := compare a.major b.major

def ttyNameColumns (name : Name64) : List UInt8 :=
  padRight 32 20 name.val ++ cstr " " ++ padRight 32 11 (cstr "/dev/" ++ name.val)

def ttyNumberColumns (major min max : ℕ) : List UInt8 :=
  cstr " " ++ decField 3 major ++ cstr " " ++
    (if min = max then digits 10 false min
    else digits 10 false min ++ cstr "-" ++ digits 10 false max)

/-- `"%-20s %-11s %3d %s %s\n"`. -/
def ttyLine (r : TtyRow) : List UInt8 :=
  ttyNameColumns r.name ++ ttyNumberColumns r.major r.min r.max ++ cstr " " ++ r.type.text ++
    cstr "\n"

def buildTtydriversBlob (qsort : Qsort ttyrowCmp) (entries : List DevEntry) : List UInt8 :=
  let rows := entries.foldl (fun rows e => (ttyNode e).elim rows (ttyMerge.insert rows)) []
  (qsort.sort rows).flatMap ttyLine

/-! ## The order of the major numbers -/

/-- The entries that `/proc/devices` is made from. -/
def devNodes (entries : List DevEntry) : List DevRow := entries.filterMap devNode

/-- The major numbers of a type, as they are listed. -/
def devMajors (qsort : Qsort devrowCmp) (entries : List DevEntry) (isBlock : Bool) : List ℕ :=
  ((qsort.sort (devMerge.collect (devNodes entries))).filter fun r => r.isBlock == isBlock).map
    DevRow.major

/-- The part of `/proc/devices` for a type, from the rows of the major numbers. -/
def devPart (qsort : Qsort devrowCmp) (entries : List DevEntry) (isBlock : Bool) : List UInt8 :=
  (devMajors qsort entries isBlock).flatMap fun m =>
    (devMerge.rowOf (devNodes entries) (m, isBlock)).elim [] fun r => devLine r.major r.name

theorem buildDevicesBlob_eq (qsort : Qsort devrowCmp) (entries : List DevEntry) :
    buildDevicesBlob qsort entries =
      cstr "Character devices:\n" ++ devPart qsort entries false ++ cstr "\nBlock devices:\n" ++
        devPart qsort entries true := by
  have hrows : ∀ isBlock,
      ((qsort.sort (devMerge.collect (devNodes entries))).filter
          fun r => r.isBlock == isBlock).flatMap
        (fun r => devLine r.major r.name) = devPart qsort entries isBlock := by
    intro isBlock
    refine devMerge.flatMap_rows (fun m => (m, isBlock)) (fun r hr => ?_) _
    rw [List.mem_filter, (qsort.perm _).mem_iff, beq_iff_eq] at hr
    exact ⟨hr.1, by rw [← hr.2]; rfl⟩
  have hloop : entries.foldl (fun rows e => (devNode e).elim rows (devInsert rows)) [] =
      devMerge.collect (devNodes entries) := devMerge.foldl_insert_eq devNode entries
  rw [← hrows, ← hrows]
  simp only [buildDevicesBlob, hloop, beq_false, beq_true]

theorem mem_devMajors_iff {qsort : Qsort devrowCmp} {entries : List DevEntry} {isBlock : Bool}
    {m : ℕ} :
    m ∈ devMajors qsort entries isBlock ↔
      ∃ x ∈ devNodes entries, x.major = m ∧ x.isBlock = isBlock := by
  have hkeys := @Lib.Merge.mem_keys_collect_iff _ _ _ _ devMerge (devNodes entries) (m, isBlock)
  have hkey : ∀ x : DevRow,
      devMerge.entryKey x = (m, isBlock) ↔ x.major = m ∧ x.isBlock = isBlock :=
    fun x => Prod.mk.injEq _ _ _ _ ▸ Iff.rfl
  simp only [hkey] at hkeys
  rw [← hkeys, devMajors]
  simp only [List.mem_map, List.mem_filter, (qsort.perm _).mem_iff, beq_iff_eq]
  constructor
  · rintro ⟨r, ⟨hr, hblock⟩, hmajor⟩
    exact ⟨r, hr, (hkey r).mpr ⟨hmajor, hblock⟩⟩
  · rintro ⟨r, hr, hkeyr⟩
    exact ⟨r, ⟨hr, ((hkey r).mp hkeyr).2⟩, ((hkey r).mp hkeyr).1⟩

/-- The major numbers of a type are listed in increasing order. -/
theorem devMajors_pairwise (qsort : Qsort devrowCmp) (entries : List DevEntry) (isBlock : Bool) :
    (devMajors qsort entries isBlock).Pairwise (· < ·) := by
  have hperm := qsort.perm (devMerge.collect (devNodes entries))
  have hnodup := (hperm.map devMerge.rowKey).nodup_iff.mpr
    (devMerge.nodup_collect (devNodes entries))
  have hsorted := (qsort.sorted (devMerge.collect (devNodes entries))).and
    (List.pairwise_map.mp hnodup)
  rw [devMajors, List.pairwise_map]
  refine (hsorted.filter _).imp_of_mem fun {r r'} hr hr' h => ?_
  rw [List.mem_filter, beq_iff_eq] at hr hr'
  have hle : r.major ≤ r'.major := Nat.isLE_compare.mp h.1
  refine Nat.lt_of_le_of_ne hle fun heq => h.2 ?_
  exact Prod.ext heq (hr.2.trans hr'.2.symm)

theorem devMajors_perm (qsort : Qsort devrowCmp) {entries entries' : List DevEntry}
    (h : entries.Perm entries') (isBlock : Bool) :
    devMajors qsort entries isBlock = devMajors qsort entries' isBlock := by
  refine (devMajors_pairwise qsort entries isBlock).eq_of_mem_iff
    (devMajors_pairwise qsort entries' isBlock) fun m => ?_
  have hnodes : ∀ x, x ∈ devNodes entries ↔ x ∈ devNodes entries' :=
    fun x => (h.filterMap devNode).mem_iff
  rw [mem_devMajors_iff, mem_devMajors_iff]
  simp only [hnodes]

/-! ## When the order of `/dev` does not show -/

/-- Of the entries of a major number of a type, one with a shortest family name. -/
def Shortest (nodes : List DevRow) (x : DevRow) : Prop :=
  x ∈ nodes ∧ ∀ y ∈ nodes, devMerge.entryKey y = devMerge.entryKey x →
    x.name.val.length ≤ y.name.val.length

/-- The later entries of a row leave one with a shortest name. -/
theorem foldl_devAgain (rest : List DevRow) (x : DevRow)
    (hkey : ∀ y ∈ rest, devMerge.entryKey y = devMerge.entryKey x) :
    rest.foldl devMerge.again x ∈ x :: rest ∧
      ∀ y ∈ x :: rest, (rest.foldl devMerge.again x).name.val.length ≤ y.name.val.length := by
  induction rest generalizing x with
  | nil => simp
  | cons y rest ih =>
    rw [List.forall_mem_cons] at hkey
    rw [List.foldl_cons]
    by_cases hlt : y.name.val.length < x.name.val.length
    · -- the names are of one key, so the row becomes the entry
      have hagain : devMerge.again x y = y := by
        have hmajor := congrArg Prod.fst hkey.1
        have hblock := congrArg Prod.snd hkey.1
        show (if _ then _ else _) = y
        rw [if_pos hlt]
        cases x
        cases y
        exact (DevRow.mk.injEq ..).mpr ⟨hmajor.symm, hblock.symm, rfl⟩
      rw [hagain]
      rcases ih y (fun z hz => (hkey.2 z hz).trans hkey.1.symm) with ⟨hmem, hle⟩
      refine ⟨List.mem_cons_of_mem x hmem, List.forall_mem_cons.mpr ⟨?_, hle⟩⟩
      exact Nat.le_of_lt (Nat.lt_of_le_of_lt (hle y List.mem_cons_self) hlt)
    · have hagain : devMerge.again x y = x := if_neg hlt
      rw [hagain]
      rcases ih x hkey.2 with ⟨hmem, hle⟩
      rw [List.forall_mem_cons] at hle
      refine ⟨?_, List.forall_mem_cons.mpr ⟨hle.1, List.forall_mem_cons.mpr ⟨?_, hle.2⟩⟩⟩
      · rcases List.mem_cons.mp hmem with heq | hmem
        · rw [heq]
          exact List.mem_cons_self
        · exact List.mem_cons_of_mem x (List.mem_cons_of_mem y hmem)
      · exact Nat.le_trans hle.1 (Nat.not_lt.mp hlt)

/-- The row of a major number is one of its entries with a shortest name. -/
theorem shortest_of_rowOf {nodes : List DevRow} {k : ℕ × Bool} {r : DevRow}
    (h : devMerge.rowOf nodes k = some r) : devMerge.entryKey r = k ∧ Shortest nodes r := by
  obtain ⟨x, rest, hfilter, hr⟩ := devMerge.exists_of_rowOf h
  have hmem : ∀ y, y ∈ x :: rest ↔ y ∈ nodes ∧ devMerge.entryKey y = k := by
    intro y
    rw [← hfilter, List.mem_filter, decide_eq_true_eq]
  have hx := (hmem x).mp List.mem_cons_self
  have hfold := foldl_devAgain rest x fun y hy =>
    ((hmem y).mp (List.mem_cons_of_mem x hy)).2.trans hx.2.symm
  have hrow : r ∈ x :: rest ∧ ∀ y ∈ x :: rest, r.name.val.length ≤ y.name.val.length := hr ▸ hfold
  have hr := (hmem r).mp hrow.1
  refine ⟨hr.2, hr.1, fun y hy hkey => hrow.2 y ((hmem y).mpr ⟨hy, hkey.trans hr.2⟩)⟩

/-- If the first entry of a major number has a shortest name, it is the row. -/
theorem rowOf_cons_shortest {x : DevRow} {nodes : List DevRow} (h : Shortest (x :: nodes) x) :
    devMerge.rowOf (x :: nodes) (devMerge.entryKey x) = some x := by
  have hkeep : ∀ rest : List DevRow, (∀ y ∈ rest, x.name.val.length ≤ y.name.val.length) →
      rest.foldl devMerge.again x = x := by
    intro rest hall
    induction rest with
    | nil => rfl
    | cons y rest ih =>
      rw [List.forall_mem_cons] at hall
      have hagain : devMerge.again x y = x := if_neg (Nat.not_lt.mpr hall.1)
      rw [List.foldl_cons, hagain, ih hall.2]
  rw [devMerge.rowOf_cons_self]
  refine congrArg some (hkeep _ fun y hy => ?_)
  rw [List.mem_filter, decide_eq_true_eq] at hy
  exact h.2 y (List.mem_cons_of_mem x hy.1) hy.2

/-- The shortest family of each major number of a type is only one. -/
def ShortestAgree (entries : List DevEntry) : Prop :=
  ∀ x y, Shortest (devNodes entries) x → Shortest (devNodes entries) y →
    devMerge.entryKey x = devMerge.entryKey y → x.name = y.name

theorem Shortest.of_perm {nodes nodes' : List DevRow} {x : DevRow} (h : Shortest nodes x)
    (hperm : nodes.Perm nodes') : Shortest nodes' x :=
  ⟨hperm.mem_iff.mp h.1, fun y hy => h.2 y (hperm.mem_iff.mpr hy)⟩

/-- The part of a type, where the shortest families agree. -/
theorem devPart_eq_of_shortestAgree (qsort : Qsort devrowCmp) {entries es es' : List DevEntry}
    (h : ShortestAgree entries) (hes : es.Perm entries) (hes' : es'.Perm entries)
    (isBlock : Bool) : devPart qsort es isBlock = devPart qsort es' isBlock := by
  have hperm := hes.trans hes'.symm
  rw [devPart, devPart, devMajors_perm qsort hperm]
  refine List.flatMap_congr fun m _ => ?_
  refine devMerge.elim_rowOf_eq_of_perm (hperm.filterMap devNode) [] fun r r' hr hr' => ?_
  obtain ⟨hk, hshort⟩ := shortest_of_rowOf hr
  obtain ⟨hk', hshort'⟩ := shortest_of_rowOf hr'
  have hkey := hk.trans hk'.symm
  have hname := h r r' (hshort.of_perm (hes.filterMap devNode))
    (hshort'.of_perm (hes'.filterMap devNode)) hkey
  have hmajor : r.major = r'.major := congrArg Prod.fst hkey
  rw [hname, hmajor]

theorem devLine_inj {m : ℕ} {name name' : Name64} (h : devLine m name = devLine m name') :
    name = name' := by
  have h := List.append_cancel_right h
  exact Subtype.ext (List.append_cancel_left h)

/-- Two orders that differ in the row of one major number. -/
theorem name_eq_of_buildDevicesBlob_eq {qsort : Qsort devrowCmp} {es es' : List DevEntry}
    (hperm : es.Perm es') {x y : DevRow} (hkey : devMerge.entryKey x = devMerge.entryKey y)
    (hx : devMerge.rowOf (devNodes es) (devMerge.entryKey x) = some x)
    (hy : devMerge.rowOf (devNodes es') (devMerge.entryKey x) = some y)
    (hoff : ∀ k, k ≠ devMerge.entryKey x →
      devMerge.rowOf (devNodes es) k = devMerge.rowOf (devNodes es') k)
    (h : buildDevicesBlob qsort es = buildDevicesBlob qsort es') : x.name = y.name := by
  have hmajor : x.major = y.major := congrArg Prod.fst hkey
  have hpart : devPart qsort es x.isBlock = devPart qsort es' x.isBlock := by
    -- the part of the other type is the same
    have hother : devPart qsort es (!x.isBlock) = devPart qsort es' (!x.isBlock) := by
      rw [devPart, devPart, devMajors_perm qsort hperm]
      refine List.flatMap_congr fun m _ => ?_
      rw [hoff]
      intro heq
      have hblock : (!x.isBlock) = x.isBlock := congrArg Prod.snd heq
      cases hb : x.isBlock <;> rw [hb] at hblock <;> cases hblock
    rw [buildDevicesBlob_eq, buildDevicesBlob_eq] at h
    cases hb : x.isBlock with
    | false =>
      rw [hb] at hother
      rw [show devPart qsort es true = _ from hother] at h
      exact List.append_cancel_left (List.append_cancel_right (List.append_cancel_right h))
    | true =>
      rw [hb] at hother
      rw [show devPart qsort es false = _ from hother] at h
      exact List.append_cancel_left h
  rw [devPart, devPart, devMajors_perm qsort hperm] at hpart
  have hnode : ∃ z ∈ devNodes es', z.major = x.major ∧ z.isBlock = x.isBlock := by
    obtain ⟨hk, hshort⟩ := shortest_of_rowOf hy
    exact ⟨y, hshort.1, hmajor.symm, congrArg Prod.snd hk⟩
  have hline := (Lib.flatMap_eq_iff_of_eq_off (mem_devMajors_iff.mpr hnode)
    (devMajors_pairwise qsort es' x.isBlock).nodup (fun m hm => by
      rw [hoff]
      exact fun heq => hm (congrArg Prod.fst heq))).mp hpart
  rw [show devMerge.rowOf (devNodes es) (x.major, x.isBlock) = some x from hx,
    show devMerge.rowOf (devNodes es') (x.major, x.isBlock) = some y from hy] at hline
  have hline : devLine x.major x.name = devLine y.major y.name := hline
  rw [hmajor] at hline
  exact devLine_inj hline

/-- The listing does not show the order of the entries if and only if the shortest families
agree. -/
theorem buildDevicesBlob_perm_iff (qsort : Qsort devrowCmp) (entries : List DevEntry) :
    (∀ es es', es.Perm entries → es'.Perm entries →
      buildDevicesBlob qsort es = buildDevicesBlob qsort es') ↔ ShortestAgree entries := by
  constructor
  · intro h x y hx hy hkey
    obtain ⟨es, rest, hes, hnodes, hoff⟩ := devMerge.exists_front hx.1
    obtain ⟨es', rest', hes', hnodes', hoff'⟩ := devMerge.exists_front hy.1
    have hrow := rowOf_cons_shortest (hnodes ▸ hx.of_perm (hes.filterMap devNode).symm)
    have hrow' := rowOf_cons_shortest (hnodes' ▸ hy.of_perm (hes'.filterMap devNode).symm)
    rw [← hnodes] at hrow
    rw [← hnodes', ← hkey] at hrow'
    refine name_eq_of_buildDevicesBlob_eq (hes.trans hes'.symm) hkey hrow hrow' ?_
      (h es es' hes hes')
    intro k hk
    exact (hoff k hk.symm).trans (hoff' k (hkey ▸ hk.symm)).symm
  · intro h es es' hes hes'
    rw [buildDevicesBlob_eq, buildDevicesBlob_eq, devPart_eq_of_shortestAgree qsort h hes hes',
      devPart_eq_of_shortestAgree qsort h hes hes']

/-! ## When the order of the terminals does not show -/

/-- The entries that `/proc/tty/drivers` is made from. -/
def ttyNodes (entries : List DevEntry) : List TtyNode := entries.filterMap ttyNode

/-- The major numbers, as they are listed. -/
def ttyMajors (qsort : Qsort ttyrowCmp) (entries : List DevEntry) : List ℕ :=
  (qsort.sort (ttyMerge.collect (ttyNodes entries))).map TtyRow.major

theorem buildTtydriversBlob_eq (qsort : Qsort ttyrowCmp) (entries : List DevEntry) :
    buildTtydriversBlob qsort entries =
      (ttyMajors qsort entries).flatMap fun m =>
        (ttyMerge.rowOf (ttyNodes entries) m).elim [] ttyLine := by
  rw [buildTtydriversBlob, ttyMerge.foldl_insert_eq ttyNode entries]
  refine ttyMerge.flatMap_rows (fun m => m) (fun r hr => ?_) ttyLine
  exact ⟨(qsort.perm _).mem_iff.mp hr, rfl⟩

theorem mem_ttyMajors_iff {qsort : Qsort ttyrowCmp} {entries : List DevEntry} {m : ℕ} :
    m ∈ ttyMajors qsort entries ↔ ∃ x ∈ ttyNodes entries, x.major = m := by
  have hkeys := @Lib.Merge.mem_keys_collect_iff _ _ _ _ ttyMerge (ttyNodes entries) m
  rw [ttyMajors, ((qsort.perm _).map TtyRow.major).mem_iff]
  exact hkeys

theorem ttyMajors_pairwise (qsort : Qsort ttyrowCmp) (entries : List DevEntry) :
    (ttyMajors qsort entries).Pairwise (· < ·) := by
  have hperm := qsort.perm (ttyMerge.collect (ttyNodes entries))
  have hnodup := (hperm.map ttyMerge.rowKey).nodup_iff.mpr
    (ttyMerge.nodup_collect (ttyNodes entries))
  have hsorted := (qsort.sorted (ttyMerge.collect (ttyNodes entries))).and
    (List.pairwise_map.mp hnodup)
  rw [ttyMajors, List.pairwise_map]
  refine hsorted.imp fun {r r'} h => ?_
  exact Nat.lt_of_le_of_ne (Nat.isLE_compare.mp h.1) h.2

theorem ttyMajors_perm (qsort : Qsort ttyrowCmp) {entries entries' : List DevEntry}
    (h : entries.Perm entries') : ttyMajors qsort entries = ttyMajors qsort entries' := by
  refine (ttyMajors_pairwise qsort entries).eq_of_mem_iff (ttyMajors_pairwise qsort entries')
    fun m => ?_
  have hnodes : ∀ x, x ∈ ttyNodes entries ↔ x ∈ ttyNodes entries' :=
    fun x => (h.filterMap ttyNode).mem_iff
  rw [mem_ttyMajors_iff, mem_ttyMajors_iff]
  simp only [hnodes]

/-- The minor numbers of a major number. -/
def ttyMinors (nodes : List TtyNode) (m : ℕ) : List ℕ :=
  (nodes.filter fun x => x.major = m).map TtyNode.minor

/-- The later entries of a row only widen its range. -/
theorem foldl_ttyAgain (rest : List TtyNode) (r : TtyRow) :
    rest.foldl ttyMerge.again r =
      { r with
        min := (rest.map TtyNode.minor).foldl Min.min r.min
        max := (rest.map TtyNode.minor).foldl Max.max r.max } := by
  induction rest generalizing r with
  | nil => rfl
  | cons x rest ih =>
    have hmin : (if x.minor < r.min then x.minor else r.min) = Min.min r.min x.minor := by
      split_ifs <;> omega
    have hmax : (if r.max < x.minor then x.minor else r.max) = Max.max r.max x.minor := by
      split_ifs <;> omega
    rw [List.foldl_cons, ih]
    show TtyRow.mk .. = TtyRow.mk ..
    simp only [ttyMerge, hmin, hmax, List.map_cons, List.foldl_cons]

/-- A row has the range of the minor numbers, and is named after the first entry. -/
theorem ttyRow_of_rowOf {nodes : List TtyNode} {m : ℕ} {r : TtyRow}
    (h : ttyMerge.rowOf nodes m = some r) :
    r.major = m ∧ (ttyMinors nodes m).min? = some r.min ∧ (ttyMinors nodes m).max? = some r.max ∧
      ∃ x ∈ nodes, x.major = m ∧ r.name = ttyFamily x.dName ∧ r.type = ttyType x.dName := by
  obtain ⟨x, rest, hfilter, hr⟩ := ttyMerge.exists_of_rowOf h
  have hfilter : nodes.filter (fun x => x.major = m) = x :: rest := hfilter
  have hx : x ∈ nodes.filter fun x => x.major = m := hfilter ▸ List.mem_cons_self
  rw [List.mem_filter, decide_eq_true_eq] at hx
  rw [foldl_ttyAgain] at hr
  rw [ttyMinors, hfilter, List.map_cons, List.min?_cons', List.max?_cons', hr]
  exact ⟨hx.2, rfl, rfl, x, hx.1, hx.2, rfl, rfl⟩

theorem ttyMinors_perm {nodes nodes' : List TtyNode} (h : nodes.Perm nodes') (m : ℕ) :
    (ttyMinors nodes m).Perm (ttyMinors nodes' m) :=
  (h.filter _).map TtyNode.minor

/-- Two orders give a major number the same range. -/
theorem ttyRange_eq_of_perm {nodes nodes' : List TtyNode} (hperm : nodes.Perm nodes') {m : ℕ}
    {r r' : TtyRow} (h : ttyMerge.rowOf nodes m = some r) (h' : ttyMerge.rowOf nodes' m = some r') :
    r.major = r'.major ∧ r.min = r'.min ∧ r.max = r'.max := by
  obtain ⟨hmajor, hmin, hmax, -⟩ := ttyRow_of_rowOf h
  obtain ⟨hmajor', hmin', hmax', -⟩ := ttyRow_of_rowOf h'
  have hminors := ttyMinors_perm hperm m
  rw [Lib.min?_eq_of_perm hminors, hmin'] at hmin
  rw [Lib.max?_eq_of_perm hminors, hmax'] at hmax
  exact ⟨hmajor.trans hmajor'.symm, (Option.some.inj hmin).symm, (Option.some.inj hmax).symm⟩

/-- Names of up to 6 characters look the same if only blanks at their ends are different. -/
theorem ttyNameColumns_eq_iff {name name' : Name64} :
    ttyNameColumns name = ttyNameColumns name' ↔
      padRight 32 6 name.val = padRight 32 6 name'.val := by
  have hcolumns : ∀ n : Name64, ttyNameColumns n =
      padRight 32 20 (padRight 32 6 n.val) ++ cstr " " ++
        padRight 32 11 (cstr "/dev/" ++ padRight 32 6 n.val) := by
    intro n
    have htwenty := @Lib.padRight_append_padRight 32 20 6 [] (by decide) n.val
    rw [List.nil_append, List.nil_append] at htwenty
    rw [htwenty, Lib.padRight_append_padRight (by decide)]
    rfl
  constructor
  · intro h
    have hlen := congrArg List.length h
    simp only [ttyNameColumns, List.length_append, Lib.length_padRight] at hlen
    have hdev : (cstr "/dev/").length = 5 := by decide
    rw [hdev] at hlen
    by_cases hshort : name.val.length ≤ 6 ∧ name'.val.length ≤ 6
    · rw [ttyNameColumns, ttyNameColumns, List.append_assoc, List.append_assoc] at h
      have hfirst := (List.append_inj h (by
        rw [Lib.length_padRight, Lib.length_padRight]
        omega)).1
      rw [← Lib.take_padRight hshort.1 (by decide : 6 ≤ 20), hfirst,
        Lib.take_padRight hshort.2 (by decide)]
    · have hsame : name.val.length = name'.val.length := by omega
      simp only [ttyNameColumns, padRight, List.append_assoc] at h
      rw [(List.append_inj h hsame).1]
  · intro h
    rw [hcolumns, hcolumns, h]

theorem blank_notMem_text (t : TtyType) : 32 ∉ t.text := by
  cases t <;> decide

theorem TtyType.text_inj {t t' : TtyType} (h : t.text = t'.text) : t = t' := by
  have hall : ∀ t t' : TtyType, t.text = t'.text → t = t' := by
    intro t t'
    cases t <;> cases t' <;> decide
  exact hall t t' h

/-- Lines of the same numbers look the same if and only if the columns of the name and the types
do. -/
theorem ttyLine_eq_iff {r r' : TtyRow} (hmajor : r.major = r'.major) (hmin : r.min = r'.min)
    (hmax : r.max = r'.max) :
    ttyLine r = ttyLine r' ↔
      padRight 32 6 r.name.val = padRight 32 6 r'.name.val ∧ r.type = r'.type := by
  rw [← ttyNameColumns_eq_iff]
  constructor
  · intro h
    have h := List.append_cancel_right h
    -- the type begins behind the last blank
    have hsplit : ∀ r : TtyRow, ttyNameColumns r.name ++ ttyNumberColumns r.major r.min r.max ++
        cstr " " ++ r.type.text = ttyNameColumns r.name ++ ttyNumberColumns r.major r.min r.max ++
        32 :: r.type.text := fun r => by rw [List.append_assoc _ (cstr " ")]; rfl
    rw [hsplit, hsplit] at h
    obtain ⟨hcolumns, htext⟩ := Lib.append_cons_inj_of_notMem_right (blank_notMem_text r.type)
      (blank_notMem_text r'.type) h
    rw [hmajor, hmin, hmax] at hcolumns
    exact ⟨List.append_cancel_right hcolumns, TtyType.text_inj htext⟩
  · rintro ⟨hname, htype⟩
    rw [ttyLine, ttyLine, hmajor, hmin, hmax, hname, htype]

/-- The terminals of each major number are of one family, up to blanks at the end of a short
name, and of one type. -/
def TtyAgree (entries : List DevEntry) : Prop :=
  ∀ x ∈ ttyNodes entries, ∀ y ∈ ttyNodes entries, x.major = y.major →
    padRight 32 6 (ttyFamily x.dName).val = padRight 32 6 (ttyFamily y.dName).val ∧
      ttyType x.dName = ttyType y.dName

theorem buildTtydriversBlob_perm_iff (qsort : Qsort ttyrowCmp) (entries : List DevEntry) :
    (∀ es es', es.Perm entries → es'.Perm entries →
      buildTtydriversBlob qsort es = buildTtydriversBlob qsort es') ↔ TtyAgree entries := by
  constructor
  · intro h x hx y hy hkey
    obtain ⟨es, rest, hes, hnodes, hoff⟩ := ttyMerge.exists_front hx
    obtain ⟨es', rest', hes', hnodes', hoff'⟩ := ttyMerge.exists_front hy
    have hperm := hes.trans hes'.symm
    have hrow := ttyMerge.rowOf_cons_self x rest
    have hrow' := ttyMerge.rowOf_cons_self y rest'
    rw [foldl_ttyAgain, ← hnodes] at hrow
    rw [foldl_ttyAgain, ← hnodes', show ttyMerge.entryKey y = x.major from hkey.symm] at hrow'
    have htext := h es es' hes hes'
    rw [buildTtydriversBlob_eq, buildTtydriversBlob_eq, ttyMajors_perm qsort hperm] at htext
    have hmem : x.major ∈ ttyMajors qsort es' :=
      mem_ttyMajors_iff.mpr ⟨y, by rw [ttyNodes, hnodes']; exact List.mem_cons_self, hkey.symm⟩
    have hline := (Lib.flatMap_eq_iff_of_eq_off hmem (ttyMajors_pairwise qsort es').nodup
      (fun m hm => by
        rw [ttyNodes, ttyNodes, hoff m hm.symm, hoff' m fun heq => hm (heq ▸ hkey.symm ▸ rfl)])).mp
      htext
    rw [show ttyMerge.rowOf (ttyNodes es) x.major = _ from hrow,
      show ttyMerge.rowOf (ttyNodes es') x.major = _ from hrow'] at hline
    obtain ⟨hmajor, hmin, hmax⟩ := ttyRange_eq_of_perm (hperm.filterMap ttyNode) hrow hrow'
    exact (ttyLine_eq_iff hmajor hmin hmax).mp hline
  · intro h es es' hes hes'
    have hperm := hes.trans hes'.symm
    rw [buildTtydriversBlob_eq, buildTtydriversBlob_eq, ttyMajors_perm qsort hperm]
    refine List.flatMap_congr fun m _ => ?_
    refine ttyMerge.elim_rowOf_eq_of_perm (hperm.filterMap ttyNode) [] fun r r' hr hr' => ?_
    obtain ⟨hmajor, hmin, hmax⟩ := ttyRange_eq_of_perm (hperm.filterMap ttyNode) hr hr'
    obtain ⟨-, -, -, x, hx, hxm, hname, htype⟩ := ttyRow_of_rowOf hr
    obtain ⟨-, -, -, y, hy, hym, hname', htype'⟩ := ttyRow_of_rowOf hr'
    rw [ttyLine_eq_iff hmajor hmin hmax, hname, htype, hname', htype']
    exact h x ((hes.filterMap ttyNode).mem_iff.mp hx) y ((hes'.filterMap ttyNode).mem_iff.mp hy)
      (hxm.trans hym.symm)

/-- Neither listing shows the order in which the entries come if and only if the shortest family
of each major number of a type is only one, and the terminals of each major number are of
one family and one type. -/
theorem deviceListings_perm_iff (devsort : Qsort devrowCmp) (ttysort : Qsort ttyrowCmp)
    (entries : List DevEntry) :
    (∀ es es', es.Perm entries → es'.Perm entries →
      buildDevicesBlob devsort es = buildDevicesBlob devsort es' ∧
        buildTtydriversBlob ttysort es = buildTtydriversBlob ttysort es') ↔
      ShortestAgree entries ∧ TtyAgree entries := by
  rw [← buildDevicesBlob_perm_iff devsort, ← buildTtydriversBlob_perm_iff ttysort]
  constructor
  · intro h
    exact ⟨fun es es' hes hes' => (h es es' hes hes').1,
      fun es es' hes hes' => (h es es' hes hes').2⟩
  · rintro ⟨hdev, htty⟩ es es' hes hes'
    exact ⟨hdev es es' hes hes', htty es es' hes hes'⟩

/-- `/dev/null` and `/dev/zero`, of one major number. -/
def devNull : DevEntry := ⟨cstr "null", some ⟨.chr, 0x03000002⟩, by decide⟩

def devZero : DevEntry := ⟨cstr "zero", some ⟨.chr, 0x03000003⟩, by decide⟩

instance : Std.TransCmp devrowCmp := inferInstanceAs (Std.TransCmp (compareOn DevRow.major))

/-- The one that comes first names the driver. -/
theorem buildDevicesBlob_null_zero :
    [devZero, devNull].Perm [devNull, devZero] ∧
      buildDevicesBlob (Qsort.insertion devrowCmp) [devZero, devNull] ≠
        buildDevicesBlob (Qsort.insertion devrowCmp) [devNull, devZero] ∧
      buildDevicesBlob (Qsort.insertion devrowCmp) [devNull, devZero] =
        cstr "Character devices:\n  3 null\n\nBlock devices:\n" := by
  decide

end ProcFS.Data
