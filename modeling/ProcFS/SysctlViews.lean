import Mathlib.Tactic.FinCases
import ProcFS.SysctlForest

/-!
# ProcFS.SysctlViews — enumerating and searching a sysctl directory

A directory below `/proc/sys` is seen in two ways: `procfs_sysctl_child_at` counts its visible
children, `procfs_sysctl_find` looks for one by name. Both graft the synthetic `random`
directory into `kern`, and both leave hidden oids out. They agree unless the synthetic
directory is shadowed by an oid of its name.

* `find?_sysctlListing_iff`: a child is found under its name unless it is shadowed.
* `viewsAgree_iff`: when the two views of a directory agree.
-/

namespace ProcFS

/-! ## The search finds what is enumerated -/

/-- The synthetic child of a directory that has an oid of the same name. -/
def Shadowed (roots : List SysctlOid) (d : UInt64) (child : SysctlChild) : Prop :=
  child.objectid = procfsSynRandom ∧
    ∃ other ∈ sysctlListing roots d, other.objectid ≠ procfsSynRandom ∧
      other.name.bytes = child.name.bytes

/-- Different visible oids of a directory have different names. -/
def DistinctSiblings (roots : List SysctlOid) : Prop :=
  ∀ d list, procfsSysctlChildren roots d = some list →
    ((list.filterMap visibleChild).map fun child => child.name.bytes).Nodup

variable {roots : List SysctlOid} {d : UInt64} {child : SysctlChild}

/-- An oid is at the address of a kernel pointer, which no synthetic object id is. -/
theorem objectid_ne_synRandom (haddrs : OidsAboveSyn roots) {list : List SysctlOid}
    (hlist : procfsSysctlChildren roots d = some list)
    (hchild : child ∈ list.filterMap visibleChild) : child.objectid ≠ procfsSynRandom := by
  rcases List.mem_filterMap.mp hchild with ⟨oid, hoid, hvisible⟩
  have hsyn := (haddrs.child hlist hoid).2
  rw [← visibleChild_objectid hvisible] at hsyn
  intro heq
  rw [heq] at hsyn
  exact absurd hsyn (by decide)

/-- The leaves below the synthetic directory have other object ids than it. -/
theorem randomLeaf_ne_synRandom :
    ∀ leaf ∈ procfsRandomLeaves, leaf.2 ≠ procfsSynRandom := by
  decide

/-- A child is found under its name unless it is shadowed. -/
theorem find?_sysctlListing_iff (hnames : DistinctSiblings roots) (haddrs : OidsAboveSyn roots)
    {name : CString} :
    (sysctlListing roots d).find? (fun x => x.name.bytes == name) = some child ↔
      child ∈ sysctlListing roots d ∧ child.name.bytes = name ∧ ¬ Shadowed roots d child := by
  by_cases hd : d = procfsSynRandom
  · -- the leaves of the synthetic directory
    have hleaves : sysctlListing roots d =
        procfsRandomLeaves.map fun leaf => ⟨leaf.1, false, leaf.2⟩ := by
      rw [sysctlListing, if_pos hd]
    have hnodup : ((sysctlListing roots d).map fun x => x.name.bytes).Nodup := by
      rw [hleaves, List.map_map]
      decide
    rw [Lib.find?_eq_some_iff_of_nodup hnodup]
    refine ⟨fun h => ⟨h.1, h.2, ?_⟩, fun h => ⟨h.1, h.2.1⟩⟩
    rintro ⟨hrandom, -⟩
    have hmem := h.1
    rw [hleaves] at hmem
    rcases List.mem_map.mp hmem with ⟨leaf, hleaf, rfl⟩
    exact randomLeaf_ne_synRandom leaf hleaf hrandom
  · cases hlist : procfsSysctlChildren roots d with
    | none => simp [sysctlListing, hd, hlist]
    | some list =>
      -- the visible oids, which have addresses of their own, then the synthetic directory
      obtain ⟨tail, htail, hlisting⟩ : ∃ tail : List SysctlChild,
          (∀ x ∈ tail, x.objectid = procfsSynRandom ∧ tail = [x]) ∧
          sysctlListing roots d = list.filterMap visibleChild ++ tail := by
        simp only [sysctlListing, if_neg hd, hlist]
        refine ⟨_, ?_, rfl⟩
        split <;> simp
      have hreal : ∀ x ∈ list.filterMap visibleChild, x.objectid ≠ procfsSynRandom :=
        fun x hx => objectid_ne_synRandom haddrs hlist hx
      have hfind := @Lib.find?_eq_some_iff_of_nodup _ _ _ _ (fun x : SysctlChild => x.name.bytes) _
        (hnames d list hlist)
      rw [Shadowed, hlisting, List.find?_append, Option.or_eq_some_iff, hfind]
      constructor
      · rintro (⟨hmem, hname⟩ | ⟨hnone, hsome⟩)
        · exact ⟨List.mem_append_left _ hmem, hname, fun h => hreal child hmem h.1⟩
        · have hmem := List.mem_of_find?_eq_some hsome
          have hname : child.name.bytes = name := by simpa using List.find?_some hsome
          refine ⟨List.mem_append_right _ hmem, hname, ?_⟩
          rintro ⟨-, other, hother, hobject, hsame⟩
          rcases List.mem_append.mp hother with hother | hother
          · exact absurd (hsame.trans hname)
              (by simpa using List.find?_eq_none.mp hnone other hother)
          · exact hobject (htail other hother).1
      · rintro ⟨hmem, hname, hunshadowed⟩
        rcases List.mem_append.mp hmem with hmem | hmem
        · exact Or.inl ⟨hmem, hname⟩
        · rcases htail child hmem with ⟨hrandom, htail'⟩
          refine Or.inr ⟨?_, by simp [htail', hname]⟩
          rw [List.find?_eq_none]
          intro other hother hsame
          refine hunshadowed ⟨hrandom, other, List.mem_append_left _ hother, hreal other hother, ?_⟩
          rw [hname]
          simpa using hsame

/-! ## The two views of a directory -/

/-- A visible oid of that name. -/
def HasVisible (list : List SysctlOid) (name : CString) : Prop :=
  ∃ child ∈ list.filterMap visibleChild, child.name.bytes = name

/-- `oid_name != NULL && strcmp(oid_name, "kern") == 0`. -/
def SysctlOid.isKern (oid : SysctlOid) : Bool := oid.oidName.any fun n => n.bytes == cstr "kern"

/-- What the two views take for granted: addresses are those of kernel pointers and each
oid occurs once, different visible oids of a directory have different names, and the names
`kernel` at the top and `random` below `kern` are free. -/
structure OrdinaryForest (roots : List SysctlOid) : Prop where
  above : OidsAboveSyn roots
  once : OidsOnce roots
  siblings : DistinctSiblings roots
  kernel : ¬ HasVisible roots (cstr "kernel")
  random : ∀ oid ∈ roots, oid.isKern = true → ∀ list, oid.childList = some list →
    ¬ HasVisible list (cstr "random")

/-- The two views of a directory agree: the indexes that have a child come first, the
enumerated pairs are those the search resolves (the alias of `kern` apart), and the flag of
a child says whether it is a directory. -/
structure ViewsAgree (roots : List SysctlOid) (d : UInt64) : Prop where
  bounded : ∃ n, ∀ index, (procfsSysctlChildAt roots d index).isSome = true ↔ index < n
  pairs : ∀ name objectid,
    (∃ index child, procfsSysctlChildAt roots d index = some child ∧
      child.name.bytes = name ∧ child.objectid = objectid) ↔
    procfsSysctlFind roots d name = some objectid ∧ ¬ (d = 0 ∧ name = cstr "kernel")
  flags : ∀ index child, procfsSysctlChildAt roots d index = some child →
    child.isNode = procfsSysctlIsNode roots child.objectid

theorem exists_childAt_iff {P : SysctlChild → Prop} :
    (∃ index child, procfsSysctlChildAt roots d index = some child ∧ P child) ↔
      ∃ child ∈ sysctlListing roots d, P child := by
  simp only [procfsSysctlChildAt_eq]
  constructor
  · rintro ⟨index, child, hindex, hchild⟩
    exact ⟨child, List.mem_of_getElem? hindex, hchild⟩
  · rintro ⟨child, hmem, hchild⟩
    rcases List.mem_iff_getElem?.mp hmem with ⟨index, hindex⟩
    exact ⟨index, child, hindex, hchild⟩

/-- The children of a directory, one by one. -/
theorem mem_sysctlListing :
    child ∈ sysctlListing roots d ↔
      d = procfsSynRandom ∧ (∃ leaf ∈ procfsRandomLeaves, child = ⟨leaf.1, false, leaf.2⟩) ∨
      d ≠ procfsSynRandom ∧ ∃ list, procfsSysctlChildren roots d = some list ∧
        (child ∈ list.filterMap visibleChild ∨
          d = procfsSysctlKernObjectid roots ∧
            child = randomChild) := by
  unfold sysctlListing
  by_cases hd : d = procfsSynRandom
  · simp [hd, eq_comm]
  · cases hlist : procfsSysctlChildren roots d with
    | none => simp [hd]
    | some list =>
      rw [if_neg hd]
      simp only [List.mem_append, hd, false_and, false_or, ne_eq, not_false_eq_true, true_and,
        Option.some.injEq, exists_eq_left']
      by_cases hkern : d = procfsSysctlKernObjectid roots
      · rw [if_pos hkern, List.mem_singleton]
        exact or_congr Iff.rfl (and_iff_right hkern).symm
      · rw [if_neg hkern]
        simp only [List.not_mem_nil, hkern, false_and]

/-- `procfs_sysctl_kern_objectid`, for a directory: the root if there is no `kern`, and
otherwise the first one. -/
theorem kernObjectid_cases (habove : OidsAboveSyn roots) (hd : d = procfsSysctlKernObjectid roots) :
    d = 0 ∧ (∀ oid ∈ roots, oid.isKern = false) ∨
      d ≠ 0 ∧ ∃ oid ∈ roots, oid.isKern = true ∧ oid.addr = d := by
  subst hd
  unfold procfsSysctlKernObjectid
  split
  · rename_i oid hfind
    have hmem := List.mem_of_find?_eq_some hfind
    have hkern : oid.isKern = true := List.find?_some hfind
    have hchildren : procfsSysctlChildren roots 0 = some roots := if_pos rfl
    exact Or.inr ⟨(habove.child hchildren hmem).1, oid, hmem, hkern, rfl⟩
  · rename_i hfind
    refine Or.inl ⟨rfl, fun oid hoid => ?_⟩
    exact Bool.eq_false_iff.mpr (List.find?_eq_none.mp hfind oid hoid)

/-- A child is shadowed where there is no `kern` and the synthetic directory hangs below the
root, next to a `random` that is there already. -/
theorem Shadowed.at_root (h : OrdinaryForest roots) (hmem : child ∈ sysctlListing roots d)
    (hshadowed : Shadowed roots d child) :
    d = 0 ∧ (∀ oid ∈ roots, oid.isKern = false) ∧ HasVisible roots (cstr "random") := by
  rcases hshadowed with ⟨hsyn, other, hother, hreal, hname⟩
  rcases mem_sysctlListing.mp hmem with ⟨-, leaf, hleaf, rfl⟩ | ⟨hd, list, hlist, hchild⟩
  · exact absurd hsyn (randomLeaf_ne_synRandom leaf hleaf)
  · rcases hchild with hchild | ⟨hkern, rfl⟩
    · exact absurd hsyn (objectid_ne_synRandom h.above hlist hchild)
    · have hrandom : HasVisible list (cstr "random") := by
        rcases mem_sysctlListing.mp hother with ⟨hd', -⟩ | ⟨-, list', hlist', hother | ⟨-, rfl⟩⟩
        · exact absurd hd' hd
        · rw [hlist] at hlist'
          cases hlist'
          exact ⟨other, hother, hname⟩
        · exact absurd rfl hreal
      rcases kernObjectid_cases h.above hkern with ⟨hroot, hnone⟩ | ⟨hne, oid, hoid, hiskern, haddr⟩
      · subst hroot
        cases hlist
        exact ⟨rfl, hnone, hrandom⟩
      · -- below the real `kern` the name is free
        have hderef := derefList_of_children h.once (if_pos rfl : procfsSysctlChildren roots 0 = _)
          hoid
        rcases procfsSysctlChildren_eq_some.mp hlist with ⟨hzero, -⟩ | ⟨-, found, hfound, hchildren⟩
        · exact absurd hzero hne
        · rw [← haddr, hderef] at hfound
          cases hfound
          exact absurd hrandom (h.random oid hoid hiskern list hchildren)

/-- There it is shadowed. -/
theorem shadowed_at_root (habove : OidsAboveSyn roots) (hnone : ∀ oid ∈ roots, oid.isKern = false)
    (hvisible : HasVisible roots (cstr "random")) :
    randomChild ∈ sysctlListing roots 0 ∧ Shadowed roots 0 randomChild := by
  rcases hvisible with ⟨random, hrandom, hname⟩
  have hkern : procfsSysctlKernObjectid roots = 0 := by
    have hnone' : roots.find? (fun oid => oid.oidName.any fun n => n.bytes == cstr "kern") = none :=
      List.find?_eq_none.mpr fun oid hoid => Bool.eq_false_iff.mp (hnone oid hoid)
    rw [procfsSysctlKernObjectid, hnone']
  have hreal : random ∈ sysctlListing roots 0 :=
    mem_sysctlListing.mpr (Or.inr ⟨by decide, roots, rfl, Or.inl hrandom⟩)
  have hne := objectid_ne_synRandom habove (if_pos rfl : procfsSysctlChildren roots 0 = _) hrandom
  refine ⟨?_, rfl, random, hreal, hne, hname⟩
  exact mem_sysctlListing.mpr (Or.inr ⟨by decide, roots, rfl, Or.inr ⟨hkern.symm, rfl⟩⟩)

/-- The flag of a child says whether it is a directory. -/
theorem isNode_of_mem_sysctlListing (habove : OidsAboveSyn roots) (honce : OidsOnce roots)
    (hmem : child ∈ sysctlListing roots d) :
    child.isNode = procfsSysctlIsNode roots child.objectid := by
  rcases mem_sysctlListing.mp hmem with ⟨-, leaf, hleaf, rfl⟩ | ⟨-, list, hlist, hchild | ⟨-, rfl⟩⟩
  · simp only [procfsRandomLeaves, List.mem_cons, List.not_mem_nil, or_false] at hleaf
    rcases hleaf with rfl | rfl | rfl | rfl <;> rfl
  · rcases List.mem_filterMap.mp hchild with ⟨oid, hoid, hvisible⟩
    rcases habove.child hlist hoid with ⟨hne, hsyn⟩
    have hnode : child.isNode = kindIsNode oid.oidKind := by
      unfold visibleChild at hvisible
      split at hvisible
      · cases hvisible
      · rw [Option.ite_none_left_eq_some] at hvisible
        rw [← Option.some.inj hvisible.2]
    rw [visibleChild_objectid hvisible, procfsSysctlIsNode, if_neg hne, hsyn,
      derefList_of_children honce hlist hoid, hnode]
    rfl
  · rfl

/-- The two views of a directory agree, unless it is the root, there is no `kern` and there
is a `random` at the top. -/
theorem viewsAgree_iff {roots : List SysctlOid} (h : OrdinaryForest roots) (d : UInt64) :
    ViewsAgree roots d ↔
      ¬ (d = 0 ∧ (∀ oid ∈ roots, oid.isKern = false) ∧ HasVisible roots (cstr "random")) := by
  have hfind : ∀ name objectid, procfsSysctlFind roots d name = some objectid ↔
      ∃ child ∈ sysctlListing roots d, child.name.bytes = soughtName d name ∧
        ¬ Shadowed roots d child ∧ child.objectid = objectid := by
    intro name objectid
    rw [procfsSysctlFind_eq, Option.map_eq_some_iff]
    simp only [find?_sysctlListing_iff h.siblings h.above, and_assoc]
  constructor
  · rintro hagree ⟨rfl, hnone, hvisible⟩
    -- the synthetic directory is enumerated but not found
    rcases shadowed_at_root h.above hnone hvisible with ⟨hmem, -, other, hother, hne, hname⟩
    have hpair := (hagree.pairs (cstr "random") procfsSynRandom).mp
      (exists_childAt_iff.mpr ⟨randomChild, hmem, rfl, rfl⟩)
    rcases (hfind _ _).mp hpair.1 with ⟨child, -, hsought, hunshadowed, hid⟩
    have hsought' : soughtName 0 (cstr "random") = randomChild.name.bytes := by decide
    exact hunshadowed ⟨hid, other, hother, hne, by rw [hsought, hsought', hname]⟩
  · intro hnot
    have hclear : ∀ child ∈ sysctlListing roots d, ¬ Shadowed roots d child :=
      fun child hmem hshadowed => hnot (hshadowed.at_root h hmem)
    refine ⟨⟨(sysctlListing roots d).length, fun index => ?_⟩, fun name objectid => ?_,
      fun index child hindex => ?_⟩
    · rw [procfsSysctlChildAt_eq]
      simp
    · rw [exists_childAt_iff, hfind]
      by_cases halias : d = 0 ∧ name = cstr "kernel"
      · -- the alias is found, but nothing of its name is enumerated
        rcases halias with ⟨rfl, rfl⟩
        refine ⟨?_, fun hfound => absurd ⟨rfl, rfl⟩ hfound.2⟩
        rintro ⟨child, hmem, hname, -⟩
        rcases mem_sysctlListing.mp hmem with ⟨hd, -⟩ | ⟨-, list, hlist, hchild | ⟨-, rfl⟩⟩
        · exact absurd hd (by decide)
        · cases hlist
          exact absurd ⟨child, hchild, hname⟩ h.kernel
        · exact absurd hname (by decide)
      · rw [soughtName, if_neg halias, and_iff_left halias]
        constructor
        · rintro ⟨child, hmem, hname, hid⟩
          exact ⟨child, hmem, hname, hclear child hmem, hid⟩
        · rintro ⟨child, hmem, hname, -, hid⟩
          exact ⟨child, hmem, hname, hid⟩
    · rw [procfsSysctlChildAt_eq] at hindex
      exact isNode_of_mem_sysctlListing h.above h.once (List.mem_of_getElem? hindex)

/-- A number at the top that is called `random`. -/
def randomOid : SysctlOid := .mk 4096 (some randomChild.name) 2 100 none

/-- A `kern` with one string below it. -/
def kernOid : SysctlOid :=
  .mk 8192 (some ⟨cstr "kern", by decide⟩) 1 1
    (some [.mk 12288 (some ⟨cstr "ostype", by decide⟩) 3 1 none])

theorem ordinary_kern_random : OrdinaryForest [kernOid, randomOid] where
  above := by
    intro a ha
    fin_cases ha <;> decide
  once := by
    show (addrsList _).Nodup
    decide
  siblings := by
    intro d list hlist
    rcases childList_of_children hlist with rfl | ⟨x, hx, hlist⟩
    · decide
    · fin_cases hx
      · cases hlist
        decide
      · cases hlist
      · cases hlist
  kernel := by
    rintro ⟨child, hchild, hname⟩
    fin_cases hchild <;> exact absurd hname (by decide)
  random := by
    intro oid hoid hkern list hlist
    fin_cases hoid
    · cases hlist
      rintro ⟨child, hchild, hname⟩
      fin_cases hchild
      exact absurd hname (by decide)
    · cases hlist

theorem viewsAgree_kern_random : ViewsAgree [kernOid, randomOid] 0 := by
  refine (viewsAgree_iff ordinary_kern_random 0).mpr ?_
  rintro ⟨-, hnone, -⟩
  exact absurd (hnone kernOid List.mem_cons_self) (by decide)

/-- Without `kern` the synthetic directory is enumerated at the root, next to the `random` that
is found under this name. -/
theorem views_differ_random :
    OrdinaryForest [randomOid] ∧
      (procfsSysctlChildAt [randomOid] 0 1).map (fun child => (child.name.bytes, child.objectid)) =
        some (cstr "random", procfsSynRandom) ∧
      procfsSysctlFind [randomOid] 0 (cstr "random") = some 4096 ∧
      ¬ ViewsAgree [randomOid] 0 := by
  have hchild : procfsSysctlChildAt [randomOid] 0 1 = some randomChild := rfl
  have hfind : procfsSysctlFind [randomOid] 0 (cstr "random") = some 4096 := rfl
  refine ⟨⟨?_, ?_, ?_, ?_, ?_⟩, rfl, hfind, ?_⟩
  · intro a ha
    fin_cases ha
    decide
  · show (addrsList _).Nodup
    decide
  · intro d list hlist
    rcases childList_of_children hlist with rfl | ⟨x, hx, hlist⟩
    · decide
    · fin_cases hx
      cases hlist
  · rintro ⟨child, hmem, hname⟩
    fin_cases hmem
    exact absurd hname (by decide)
  · intro oid hoid hkern
    fin_cases hoid
    exact absurd hkern (by decide)
  · intro hagree
    have hpair := (hagree.pairs (cstr "random") procfsSynRandom).mp ⟨1, _, hchild, rfl, rfl⟩
    rw [hfind] at hpair
    exact absurd hpair.1 (by decide)

end ProcFS
