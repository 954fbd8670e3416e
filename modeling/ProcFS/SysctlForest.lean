import ProcFS.Lib.Keyed
import ProcFS.Sysctl

/-!
# ProcFS.SysctlForest — searching the oid forest

An oid does not know its parent: `procfs_sysctl_find_parent` searches the whole
forest for it. The statements about the recursion come in pairs, one for an oid and
one for a list of oids.

* `derefList_eq`: following a pointer is a search by address in one list.
* `procfsSysctlFindParent_eq`: so is the search for a parent.
* `procfsSysctlParent_of_find`: what is found in a directory has the directory for its parent.
-/

namespace ProcFS

mutual

/-- The addresses of an oid and of everything below it. -/
def SysctlOid.addrs : SysctlOid → List UInt64
  | .mk a _ _ _ none => [a]
  | .mk a _ k _ (some l) => a :: if kindIsNode k then addrsList l else []

/-- The addresses of a list of oids and of everything below them. -/
def addrsList : List SysctlOid → List UInt64
  | [] => []
  | oid :: rest => oid.addrs ++ addrsList rest

end

def SysctlOid.childList (oid : SysctlOid) : Option (List SysctlOid) :=
  if kindIsNode oid.oidKind then oid.oidArg1 else none

theorem SysctlOid.childList_mk_eq_some {a : UInt64} {n : Option OidName} {k : UInt32} {m : ℤ}
    {arg : Option (List SysctlOid)} {list : List SysctlOid} :
    (SysctlOid.mk a n k m arg).childList = some list ↔ kindIsNode k = true ∧ arg = some list :=
  Option.ite_none_right_eq_some

/-! ## Searching the forest

Both searches visit the oids in the same order, so both are searches in one list:
the oids of the forest, each with the object id of its parent. -/

mutual

/-- An oid and everything below it, with their parents. -/
def SysctlOid.visited (parentId : UInt64) : SysctlOid → List (UInt64 × SysctlOid)
  | .mk a n k m none => [(parentId, .mk a n k m none)]
  | .mk a n k m (some l) =>
    (parentId, .mk a n k m (some l)) :: if kindIsNode k then visitedList a l else []

/-- A list of oids and everything below them, with their parents. -/
def visitedList (parentId : UInt64) : List SysctlOid → List (UInt64 × SysctlOid)
  | [] => []
  | oid :: rest => oid.visited parentId ++ visitedList parentId rest

end

mutual

theorem SysctlOid.map_visited (parentId : UInt64) :
    ∀ oid : SysctlOid, (oid.visited parentId).map (fun x => x.2.addr) = oid.addrs
  | .mk a n k m none => by
    rw [SysctlOid.visited, SysctlOid.addrs, List.map_singleton, SysctlOid.addr]
  | .mk a n k m (some l) => by
    rw [SysctlOid.visited, SysctlOid.addrs, List.map_cons, SysctlOid.addr]
    split
    · rw [map_visitedList a l]
    · rfl

theorem map_visitedList (parentId : UInt64) :
    ∀ l : List SysctlOid, (visitedList parentId l).map (fun x => x.2.addr) = addrsList l
  | [] => rfl
  | oid :: rest => by
    rw [visitedList, addrsList, List.map_append, SysctlOid.map_visited parentId oid,
      map_visitedList parentId rest]

end

mutual

theorem SysctlOid.searches_eq (target parentId : UInt64) :
    ∀ oid : SysctlOid,
      oid.deref target =
        ((oid.visited parentId).find? fun x => x.2.addr == target).map Prod.snd ∧
      oid.findParent target parentId =
        ((oid.visited parentId).find? fun x => x.2.addr == target).map Prod.fst
  | .mk a n k m none => by
    rw [SysctlOid.deref, SysctlOid.findParent, SysctlOid.visited, List.find?_singleton,
      SysctlOid.addr]
    by_cases h : a = target <;> simp [h]
  | .mk a n k m (some l) => by
    rw [SysctlOid.deref, SysctlOid.findParent, SysctlOid.visited, List.find?_cons, SysctlOid.addr]
    by_cases h : a = target
    · simp [h]
    · have hne : (a == target) = false := beq_false_of_ne h
      by_cases hnode : kindIsNode k = true
      · simp [h, hne, hnode, searchesList_eq target a l]
      · simp [h, hne, hnode]

theorem searchesList_eq (target parentId : UInt64) :
    ∀ l : List SysctlOid,
      derefList target l =
        ((visitedList parentId l).find? fun x => x.2.addr == target).map Prod.snd ∧
      procfsSysctlFindParent target parentId l =
        ((visitedList parentId l).find? fun x => x.2.addr == target).map Prod.fst
  | [] => ⟨rfl, rfl⟩
  | oid :: rest => by
    obtain ⟨hderef, hparent⟩ := SysctlOid.searches_eq target parentId oid
    obtain ⟨hderefRest, hparentRest⟩ := searchesList_eq target parentId rest
    rw [derefList, procfsSysctlFindParent, visitedList, List.find?_append, hderef, hparent,
      hderefRest, hparentRest]
    cases (oid.visited parentId).find? fun x => x.2.addr == target <;> exact ⟨rfl, rfl⟩

end

/-- Following a pointer is a search for its address. -/
theorem derefList_eq (target parentId : UInt64) (l : List SysctlOid) :
    derefList target l =
      ((visitedList parentId l).find? fun x => x.2.addr == target).map Prod.snd :=
  (searchesList_eq target parentId l).1

/-- The search for a parent is a search for the address of the child. -/
theorem procfsSysctlFindParent_eq (target parentId : UInt64) (l : List SysctlOid) :
    procfsSysctlFindParent target parentId l =
      ((visitedList parentId l).find? fun x => x.2.addr == target).map Prod.fst :=
  (searchesList_eq target parentId l).2

variable {oid : SysctlOid} {roots list : List SysctlOid} {d : UInt64}

theorem mem_visitedList_top {parentId : UInt64} {l : List SysctlOid} (h : oid ∈ l) :
    (parentId, oid) ∈ visitedList parentId l := by
  induction l with
  | nil => cases h
  | cons first rest ih =>
    rw [visitedList, List.mem_append]
    rcases List.mem_cons.mp h with rfl | h
    · match oid with
      | .mk a n k m none => simp [SysctlOid.visited]
      | .mk a n k m (some l) => simp [SysctlOid.visited]
    · exact Or.inr (ih h)

mutual

theorem SysctlOid.mem_visited_child {found child : SysctlOid} {list : List SysctlOid}
    (hlist : found.childList = some list) (hchild : child ∈ list) {q : UInt64} (parentId : UInt64) :
    ∀ oid : SysctlOid, (q, found) ∈ oid.visited parentId →
      (found.addr, child) ∈ oid.visited parentId
  | .mk a n k m none, h => by
    rw [SysctlOid.visited, List.mem_singleton] at h
    cases h
    cases (SysctlOid.childList_mk_eq_some.mp hlist).2
  | .mk a n k m (some l), h => by
    rw [SysctlOid.visited, List.mem_cons] at h ⊢
    rcases h with h | h
    · -- the oid itself: the child is in its list
      cases h
      rcases SysctlOid.childList_mk_eq_some.mp hlist with ⟨hnode, hl⟩
      cases hl
      rw [if_pos hnode]
      exact Or.inr (mem_visitedList_top hchild)
    · by_cases hnode : kindIsNode k = true
      · rw [if_pos hnode] at h ⊢
        exact Or.inr (mem_visitedList_child hlist hchild a l h)
      · rw [if_neg hnode] at h
        cases h

/-- The children of a visited oid are visited, with that oid for a parent. -/
theorem mem_visitedList_child {found child : SysctlOid} {list : List SysctlOid}
    (hlist : found.childList = some list) (hchild : child ∈ list) {q : UInt64} (parentId : UInt64) :
    ∀ l : List SysctlOid, (q, found) ∈ visitedList parentId l →
      (found.addr, child) ∈ visitedList parentId l
  | oid :: rest, h => by
    rw [visitedList, List.mem_append] at h ⊢
    rcases h with h | h
    · exact Or.inl (SysctlOid.mem_visited_child hlist hchild parentId oid h)
    · exact Or.inr (mem_visitedList_child hlist hchild parentId rest h)

end

/-! ## The parent of a child -/

/-- No oid lies at an address that is the object id of the root or of a synthetic
node. -/
def OidsAboveSyn (roots : List SysctlOid) : Prop := ∀ a ∈ addrsList roots, procfsSynMax ≤ a

def OidsOnce (roots : List SysctlOid) : Prop := (addrsList roots).Nodup

/-- The children of a directory object id are the top-level oids or the child list
of the oid at that address. -/
theorem procfsSysctlChildren_eq_some :
    procfsSysctlChildren roots d = some list ↔
      d = 0 ∧ list = roots ∨
      d ≠ 0 ∧ ∃ found, derefList d roots = some found ∧ found.childList = some list := by
  unfold procfsSysctlChildren
  by_cases hd : d = 0
  · simp [hd, eq_comm]
  · cases hderef : derefList d roots with
    | none => simp [hd]
    | some found =>
      simp only [hd, if_false, SysctlOid.childList, false_and, false_or, ne_eq, not_false_eq_true,
        true_and, Option.some.injEq, exists_eq_left']

theorem OidsAboveSyn.mem {roots : List SysctlOid} (haddrs : OidsAboveSyn roots) {a : UInt64}
    (h : a ∈ addrsList roots) : a ≠ 0 ∧ procfsSynIs a = false := by
  have hle := haddrs a h
  rw [UInt64.le_iff_toNat_le] at hle
  have hmax : procfsSynMax.toNat = 6 := rfl
  constructor
  · intro heq
    rw [heq, hmax] at hle
    exact absurd hle (by decide)
  · simp only [procfsSynIs, Bool.and_eq_false_iff, decide_eq_false_iff_not, UInt64.lt_iff_toNat_lt]
    right
    omega

section

variable (honce : OidsOnce roots) (h : procfsSysctlChildren roots d = some list)
  (hoid : oid ∈ list)
include h

theorem childList_of_children :
    list = roots ∨ ∃ x ∈ visitedList 0 roots, x.2.childList = some list := by
  rcases procfsSysctlChildren_eq_some.mp h with ⟨-, hroots⟩ | ⟨-, found, hderef, hlist⟩
  · exact Or.inl hroots
  · rw [derefList_eq d 0] at hderef
    rcases Option.map_eq_some_iff.mp hderef with ⟨x, hfind, rfl⟩
    exact Or.inr ⟨x, List.mem_of_find?_eq_some hfind, hlist⟩

include hoid

/-- The children of a directory are visited from the root, with the directory for a
parent. -/
theorem mem_visitedList_of_children : (d, oid) ∈ visitedList 0 roots := by
  rcases procfsSysctlChildren_eq_some.mp h with ⟨rfl, rfl⟩ | ⟨-, found, hderef, hlist⟩
  · exact mem_visitedList_top hoid
  · rw [derefList_eq d 0] at hderef
    rcases Option.map_eq_some_iff.mp hderef with ⟨⟨q, found'⟩, hfind, rfl⟩
    have haddr : found'.addr = d := by simpa using List.find?_some hfind
    rw [← haddr]
    exact mem_visitedList_child hlist hoid 0 roots (List.mem_of_find?_eq_some hfind)

theorem mem_addrsList_of_children : oid.addr ∈ addrsList roots := by
  rw [← map_visitedList 0]
  exact List.mem_map.mpr ⟨(d, oid), mem_visitedList_of_children h hoid, rfl⟩

theorem OidsAboveSyn.child (haddrs : OidsAboveSyn roots) :
    oid.addr ≠ 0 ∧ procfsSynIs oid.addr = false :=
  haddrs.mem (mem_addrsList_of_children h hoid)

include honce

/-- Where each oid occurs once, the search for the address of a child ends there. -/
theorem find?_visitedList_of_children :
    (visitedList 0 roots).find? (fun x => x.2.addr == oid.addr) = some (d, oid) := by
  have hnodup : ((visitedList 0 roots).map fun x => x.2.addr).Nodup := by
    rw [map_visitedList]
    exact honce
  exact (Lib.find?_eq_some_iff_of_nodup hnodup).mpr ⟨mem_visitedList_of_children h hoid, rfl⟩

theorem procfsSysctlFindParent_of_children : procfsSysctlFindParent oid.addr 0 roots = some d := by
  rw [procfsSysctlFindParent_eq, find?_visitedList_of_children honce h hoid, Option.map_some]

theorem derefList_of_children : derefList oid.addr roots = some oid := by
  rw [derefList_eq _ 0, find?_visitedList_of_children honce h hoid, Option.map_some]

end

/-- Whatever a search in a directory finds, real or synthetic, has that directory
as its parent. -/
theorem procfsSysctlParent_of_find {roots : List SysctlOid} (honce : OidsOnce roots)
    (haddrs : OidsAboveSyn roots) {d a : UInt64} {name : CString}
    (h : procfsSysctlFind roots d name = some a) :
    a ≠ 0 ∧ procfsSysctlParent roots a = some d := by
  rw [procfsSysctlFind_eq] at h
  rcases Option.map_eq_some_iff.mp h with ⟨child, hfind, rfl⟩
  have hmem := List.mem_of_find?_eq_some hfind
  unfold sysctlListing at hmem
  split at hmem
  · -- a leaf of the synthetic directory
    rename_i hd
    rcases List.mem_map.mp hmem with ⟨leaf, hleaf, rfl⟩
    rw [hd]
    simp only [procfsRandomLeaves, List.mem_cons, List.not_mem_nil, or_false] at hleaf
    rcases hleaf with rfl | rfl | rfl | rfl <;> exact ⟨by decide, rfl⟩
  · split at hmem
    · cases hmem
    · rename_i list hlist
      rcases List.mem_append.mp hmem with hreal | hsyn
      · rcases List.mem_filterMap.mp hreal with ⟨oid, hoid, hchild⟩
        rw [visibleChild_objectid hchild]
        rcases haddrs.child hlist hoid with ⟨hne, hsyn⟩
        have hrandom : oid.addr ≠ procfsSynRandom := by
          intro heq
          rw [heq] at hsyn
          exact absurd hsyn (by decide)
        refine ⟨hne, ?_⟩
        rw [procfsSysctlParent, if_neg hne, if_neg hrandom, hsyn]
        exact procfsSysctlFindParent_of_children honce hlist hoid
      · -- the synthetic directory itself
        split at hsyn
        · rename_i hkern
          rw [List.mem_singleton] at hsyn
          rw [hsyn, hkern]
          exact ⟨by simp [procfsSynRandom], rfl⟩
        · cases hsyn

end ProcFS
