import ProcFS.Data.Devices
import ProcFS.Lib.Fields

/-!
# ProcFS.Data.Misc — the table of the miscellaneous devices

`build_misc_blob` lists one row for each family of character devices in `/dev` that does not
belong to another table, with the lowest minor number of the family. No two rows compare equal,
so the order in which `readdir` returns the entries does not show.

* `mem_miscRows_iff`, `miscRows_pairwise`, `miscRows_perm`: the rows and their order.
* `readMisc_lines`: what a program reads back from the text.
* `buildMiscBlob_correct`: the whole table.
-/

namespace ProcFS.Data

open Lib (Merge Qsort cutFirst decField digits linesOf padLeft readNat)

/-! ## The builder -/

structure MiscRow where
  minor : ℕ
  name : Name64
deriving DecidableEq, Repr

def miscExcluded (fam : CString) : Bool :=
  [cstr "tty", cstr "pty", cstr "cu", cstr "disk", cstr "rdisk"].any (·.isPrefixOf fam) ||
    [cstr "null", cstr "zero", cstr "mem", cstr "kmem", cstr "random", cstr "urandom",
      cstr "console", cstr "ptmx", cstr "stdin", cstr "stdout", cstr "stderr", cstr "fd"].any
        (· == fam)

/-- What the loop of `build_misc_blob` inserts for an entry, if it does not go on to the next one
before. -/
def miscNode (e : DevEntry) : Option MiscRow :=
  if e.dName.head? = some 46 then none
  else
    e.lstat.bind fun st =>
      if st.stMode ≠ .chr then none
      else
        let fam := devFamily e.dName
        if fam.val = [] || miscExcluded fam.val then none else some ⟨st.minor, fam⟩

/-- The rows of `/proc/misc`: one for each family, with its lowest minor number. -/
def miscMerge : Merge MiscRow Name64 MiscRow where
  entryKey x := x.name
  rowKey r := r.name
  first x := x
  again r x := if x.minor < r.minor then { r with minor := x.minor } else r
  rowKey_first _ := rfl
  rowKey_again r x := by split_ifs <;> rfl

/-- `strcmp`: the bytes are compared without a sign. -/
def strcmp (a b : CString) : Ordering := compare a b

def miscrowCmp (a b : MiscRow) : Ordering :=
  if a.minor ≠ b.minor then compare a.minor b.minor else strcmp a.name.val b.name.val

def miscRows (qsort : Qsort miscrowCmp) (entries : List DevEntry) : List MiscRow :=
  qsort.sort (entries.foldl (fun rows e => (miscNode e).elim rows (miscMerge.insert rows)) [])

def buildMiscBlob (qsort : Qsort miscrowCmp) (entries : List DevEntry) : List UInt8 :=
  (miscRows qsort entries).flatMap fun r => devLine r.minor r.name

/-! ## The text -/

/-- What a line says: blanks, a number, one more blank, and a name up to the end of the line. -/
def readMiscLine (line : CString) : Option (ℕ × CString) :=
  (cutFirst 32 (line.dropWhile fun b => b == 32)).bind fun x =>
    (readNat x.1).map fun minor => (minor, x.2)

def readMisc (text : CString) : Option (List (ℕ × CString)) := (linesOf 10 text).mapM readMiscLine

/-- A line without its newline. -/
def MiscRow.body (r : MiscRow) : CString := decField 3 r.minor ++ (32 :: r.name.val)

theorem devLine_body (r : MiscRow) : devLine r.minor r.name = r.body ++ [10] := by
  rw [devLine, MiscRow.body, List.append_assoc (decField 3 r.minor)]
  rfl

/-- Whatever the name is, also with blanks in it. -/
theorem readMiscLine_body (r : MiscRow) : readMiscLine r.body = some (r.minor, r.name.val) := by
  have hblanks : ∀ b ∈ List.replicate (3 - (digits 10 false r.minor).length) (32 : UInt8),
      (b == 32) = true := by
    intro b hb
    rw [List.eq_of_mem_replicate hb]
    rfl
  have hdigits : 32 ∉ digits 10 false r.minor := Lib.notMem_digits (by decide) r.minor
  have hdrop : r.body.dropWhile (fun b => b == 32) =
      digits 10 false r.minor ++ 32 :: r.name.val := by
    rw [MiscRow.body, decField, padLeft, List.append_assoc, List.dropWhile_append_of_pos hblanks]
    cases hd : digits 10 false r.minor with
    | nil => exact absurd hd (Lib.digits_ne_nil 10 false r.minor)
    | cons d ds =>
      rw [hd, List.mem_cons, not_or] at hdigits
      exact List.dropWhile_cons_of_neg (by simpa using Ne.symm hdigits.1)
  rw [readMiscLine, hdrop, Lib.cutFirst_append hdigits, Option.bind_some, Lib.readNat_digits,
    Option.map_some]

theorem newline_notMem_body {r : MiscRow} (h : 10 ∉ r.name.val) : 10 ∉ r.body := by
  rw [MiscRow.body, decField, padLeft]
  simp only [List.mem_append, List.mem_cons, not_or]
  refine ⟨⟨?_, Lib.notMem_digits (by decide) r.minor⟩, by decide, h⟩
  intro hmem
  exact absurd (List.eq_of_mem_replicate hmem) (by decide)

/-- Rows whose names are single lines are read back. -/
theorem readMisc_lines {rows : List MiscRow} (h : ∀ r ∈ rows, 10 ∉ r.name.val) :
    readMisc (rows.flatMap fun r => devLine r.minor r.name) =
      some (rows.map fun r => (r.minor, r.name.val)) := by
  apply Lib.mapM_linesOf_flatMap MiscRow.body
  · exact fun r _ => devLine_body r
  · exact fun r hr => newline_notMem_body (h r hr)
  · exact fun r _ => readMiscLine_body r

/-! ## The rows -/

/-- A character device of a family that is not excluded, with a minor number. Names that begin
with a dot are not looked at. -/
def MiscDevice (entries : List DevEntry) (fam : Name64) (minor : ℕ) : Prop :=
  ∃ e ∈ entries, e.dName.head? ≠ some 46 ∧
    ∃ st, e.lstat = some st ∧ st.stMode = .chr ∧ st.minor = minor ∧
      devFamily e.dName = fam ∧ fam.val ≠ [] ∧ miscExcluded fam.val = false

/-- The entries that the table is made from. -/
def miscNodes (entries : List DevEntry) : List MiscRow := entries.filterMap miscNode

theorem miscNode_eq_some_iff {e : DevEntry} {x : MiscRow} :
    miscNode e = some x ↔ e.dName.head? ≠ some 46 ∧
      ∃ st, e.lstat = some st ∧ st.stMode = .chr ∧ st.minor = x.minor ∧
        devFamily e.dName = x.name ∧ x.name.val ≠ [] ∧ miscExcluded x.name.val = false := by
  rw [miscNode]
  split_ifs with hdot
  · simp [hdot]
  · rw [Option.bind_eq_some_iff, and_iff_right hdot]
    refine exists_congr fun st => and_congr_right fun _ => ?_
    by_cases hchr : st.stMode = .chr
    · rw [if_neg (not_not.mpr hchr), and_iff_right hchr]
      dsimp only
      -- a family that is empty or left out is no row
      split_ifs with hskip
      · rw [Bool.or_eq_true, decide_eq_true_eq] at hskip
        rw [false_iff]
        rintro ⟨-, hfam, hne, hexcl⟩
        rw [hfam] at hskip
        rcases hskip with hnil | htrue
        · exact hne hnil
        · rw [hexcl] at htrue
          cases htrue
      · rw [Bool.or_eq_true, decide_eq_true_eq, not_or, Bool.not_eq_true] at hskip
        rw [Option.some.injEq]
        constructor
        · rintro rfl
          exact ⟨rfl, rfl, hskip⟩
        · rintro ⟨hminor, hfam, -⟩
          cases x
          exact (MiscRow.mk.injEq ..).mpr ⟨hminor, hfam⟩
    · simp [hchr]

theorem mem_miscNodes_iff {entries : List DevEntry} {x : MiscRow} :
    x ∈ miscNodes entries ↔ MiscDevice entries x.name x.minor := by
  rw [miscNodes, List.mem_filterMap, MiscDevice]
  simp only [miscNode_eq_some_iff]

def miscMinors (nodes : List MiscRow) (fam : Name64) : List ℕ :=
  (nodes.filter fun x => x.name = fam).map MiscRow.minor

theorem foldl_miscAgain (rest : List MiscRow) (r : MiscRow) :
    rest.foldl miscMerge.again r =
      { r with minor := (rest.map MiscRow.minor).foldl min r.minor } := by
  induction rest generalizing r with
  | nil => rfl
  | cons x rest ih =>
    have hagain : miscMerge.again r x = { r with minor := min r.minor x.minor } := by
      show (if _ then _ else _) = _
      split_ifs with hlt
      · rw [Nat.min_eq_right (Nat.le_of_lt hlt)]
      · rw [Nat.min_eq_left (Nat.not_lt.mp hlt)]
    rw [List.foldl_cons, ih, hagain, List.map_cons, List.foldl_cons]

/-- The row of a family has the lowest of its minor numbers. -/
theorem miscMerge_rowOf (nodes : List MiscRow) (fam : Name64) :
    miscMerge.rowOf nodes fam = (miscMinors nodes fam).min?.map fun m => ⟨m, fam⟩ := by
  cases hrow : miscMerge.rowOf nodes fam with
  | none =>
    have hall : ∀ x ∈ nodes, x.name ≠ fam := miscMerge.rowOf_eq_none_iff.mp hrow
    have hfilter : nodes.filter (fun x => x.name = fam) = [] := by
      rw [List.filter_eq_nil_iff]
      simpa using hall
    rw [miscMinors, hfilter]
    rfl
  | some r =>
    obtain ⟨x, rest, hfilter, hr⟩ := miscMerge.exists_of_rowOf hrow
    have hfilter : nodes.filter (fun x => x.name = fam) = x :: rest := hfilter
    have hname : r.name = fam := miscMerge.rowKey_of_rowOf hrow
    rw [foldl_miscAgain] at hr
    rw [miscMinors, hfilter, List.map_cons, List.min?_cons', Option.map_some, ← hname, hr]
    rfl

/-! ## The order of the rows -/

theorem miscrowCmp_eq :
    miscrowCmp = compareLex (compareOn MiscRow.minor) (compareOn fun r => r.name.val) := by
  funext a b
  rw [miscrowCmp, compareLex, compareOn, compareOn]
  by_cases hminor : a.minor = b.minor
  · rw [if_neg (not_not.mpr hminor), Nat.compare_eq_eq.mpr hminor]
    rfl
  · rw [if_pos hminor]
    cases hcmp : compare a.minor b.minor with
    | eq => exact absurd (Nat.compare_eq_eq.mp hcmp) hminor
    | lt => rfl
    | gt => rfl

instance : Std.TransCmp miscrowCmp := by
  rw [miscrowCmp_eq]
  infer_instance

instance : Std.LawfulEqCmp miscrowCmp where
  eq_of_compare {a b} h := by
    rw [miscrowCmp_eq, compareLex_eq_eq] at h
    have hminor := Nat.compare_eq_eq.mp h.1
    have hname : a.name.val = b.name.val := Std.LawfulEqOrd.eq_of_compare h.2
    cases a
    cases b
    exact (MiscRow.mk.injEq ..).mpr ⟨hminor, Subtype.ext hname⟩

theorem miscRows_eq (qsort : Qsort miscrowCmp) (entries : List DevEntry) :
    miscRows qsort entries = qsort.sort (miscMerge.collect (miscNodes entries)) := by
  rw [miscRows, miscMerge.foldl_insert_eq miscNode entries]
  rfl

/-- A row has the lowest minor number of its family. -/
theorem mem_miscRows_iff {qsort : Qsort miscrowCmp} {entries : List DevEntry} {r : MiscRow} :
    r ∈ miscRows qsort entries ↔
      MiscDevice entries r.name r.minor ∧ ∀ m, MiscDevice entries r.name m → r.minor ≤ m := by
  have hmem : ∀ m, m ∈ miscMinors (miscNodes entries) r.name ↔ MiscDevice entries r.name m := by
    intro m
    rw [miscMinors, List.mem_map]
    constructor
    · rintro ⟨x, hx, rfl⟩
      rw [List.mem_filter, decide_eq_true_eq] at hx
      exact hx.2 ▸ mem_miscNodes_iff.mp hx.1
    · intro hm
      exact ⟨⟨m, r.name⟩, List.mem_filter.mpr ⟨mem_miscNodes_iff.mpr hm, by simp⟩, rfl⟩
  -- the row of a family has its lowest minor number
  have hrow : miscMerge.rowOf (miscNodes entries) r.name = some r ↔
      (miscMinors (miscNodes entries) r.name).min? = some r.minor := by
    rw [miscMerge_rowOf, Option.map_eq_some_iff]
    constructor
    · rintro ⟨m, hm, hr⟩
      rw [hm, ← hr]
    · intro hm
      exact ⟨r.minor, hm, rfl⟩
  rw [miscRows_eq, (qsort.perm _).mem_iff, miscMerge.mem_collect_iff]
  rw [show miscMerge.rowKey r = r.name from rfl, hrow, List.min?_eq_some_iff, hmem]
  simp only [hmem]

theorem miscRows_perm (qsort : Qsort miscrowCmp) {entries entries' : List DevEntry}
    (h : entries.Perm entries') : miscRows qsort entries = miscRows qsort entries' := by
  rw [miscRows_eq, miscRows_eq]
  refine qsort.sort_eq_of_perm (miscMerge.collect_perm fun fam => ?_)
  have hminors : (miscMinors (miscNodes entries) fam).Perm (miscMinors (miscNodes entries') fam) :=
    ((h.filterMap miscNode).filter _).map MiscRow.minor
  rw [miscMerge_rowOf, miscMerge_rowOf, Lib.min?_eq_of_perm hminors]

theorem nodup_miscRows (qsort : Qsort miscrowCmp) (entries : List DevEntry) :
    ((miscRows qsort entries).map MiscRow.name).Nodup := by
  have hnodup := miscMerge.nodup_collect (miscNodes entries)
  rw [miscRows_eq]
  exact ((qsort.perm _).map MiscRow.name).nodup_iff.mpr hnodup

/-- The families that have a row are those that are there. -/
theorem mem_miscRows_name_iff {qsort : Qsort miscrowCmp} {entries : List DevEntry} {fam : Name64} :
    fam ∈ (miscRows qsort entries).map MiscRow.name ↔ ∃ m, MiscDevice entries fam m := by
  have hkeys := @Lib.Merge.mem_keys_collect_iff _ _ _ _ miscMerge (miscNodes entries) fam
  rw [miscRows_eq, ((qsort.perm _).map MiscRow.name).mem_iff]
  refine hkeys.trans ?_
  constructor
  · rintro ⟨x, hx, hname⟩
    exact ⟨x.minor, hname ▸ mem_miscNodes_iff.mp hx⟩
  · rintro ⟨m, hm⟩
    exact ⟨⟨m, fam⟩, mem_miscNodes_iff.mpr hm, rfl⟩

theorem miscRows_pairwise (qsort : Qsort miscrowCmp) (entries : List DevEntry) :
    (miscRows qsort entries).Pairwise fun r r' =>
      r.minor < r'.minor ∨ r.minor = r'.minor ∧ strcmp r.name.val r'.name.val = .lt := by
  have hnodup := nodup_miscRows qsort entries
  have hsorted : (miscRows qsort entries).Pairwise fun r r' => (miscrowCmp r r').isLE :=
    qsort.sorted _
  refine (hsorted.and (List.pairwise_map.mp hnodup)).imp fun {r r'} h => ?_
  obtain ⟨hle, hname⟩ := h
  rw [miscrowCmp] at hle
  split_ifs at hle with hminor
  · exact Or.inl (Nat.lt_of_le_of_ne (Nat.isLE_compare.mp hle) hminor)
  · refine Or.inr ⟨not_not.mp hminor, ?_⟩
    cases hcmp : strcmp r.name.val r'.name.val with
    | lt => rfl
    | eq => exact absurd (Subtype.ext (Std.LawfulEqOrd.eq_of_compare hcmp)) hname
    | gt =>
      rw [hcmp] at hle
      cases hle

/-- One row for each family that is there and not excluded, with its lowest minor number, in
strictly increasing order of the minor numbers and the names; a program that reads the text line by
line gets these rows, unless a name breaks its line; and the text is the same for every order of the
entries. -/
theorem buildMiscBlob_correct (qsort : Qsort miscrowCmp) (entries : List DevEntry) :
    ∃ rows : List MiscRow,
      buildMiscBlob qsort entries = rows.flatMap (fun r => devLine r.minor r.name) ∧
      ((∀ r ∈ rows, 10 ∉ r.name.val) → readMisc (buildMiscBlob qsort entries) =
        some (rows.map fun r => (r.minor, r.name.val))) ∧
      (rows.map MiscRow.name).Nodup ∧
      (∀ fam, fam ∈ rows.map MiscRow.name ↔ ∃ m, MiscDevice entries fam m) ∧
      (∀ r ∈ rows, MiscDevice entries r.name r.minor ∧
        ∀ m, MiscDevice entries r.name m → r.minor ≤ m) ∧
      (rows.Pairwise fun r r' =>
        r.minor < r'.minor ∨ r.minor = r'.minor ∧ strcmp r.name.val r'.name.val = .lt) ∧
      ∀ entries', entries'.Perm entries →
        buildMiscBlob qsort entries' = buildMiscBlob qsort entries := by
  refine ⟨miscRows qsort entries, rfl, readMisc_lines, nodup_miscRows qsort entries,
    fun _ => mem_miscRows_name_iff, fun _ hr => mem_miscRows_iff.mp hr,
    miscRows_pairwise qsort entries, fun entries' hperm => ?_⟩
  rw [buildMiscBlob, buildMiscBlob, miscRows_perm qsort hperm]

example :
    buildMiscBlob (Qsort.insertion miscrowCmp)
      [⟨cstr "bpf1", some ⟨.chr, 0x17000001⟩, by decide⟩, devNull,
        ⟨cstr "autofs", some ⟨.chr, 0x13000000⟩, by decide⟩,
        ⟨cstr "bpf0", some ⟨.chr, 0x17000000⟩, by decide⟩] = cstr "  0 autofs\n  0 bpf\n" := by
  decide

end ProcFS.Data
