import ProcFS.SysctlForest

/-!
# ProcFS.SysctlName — the MIB name of an oid

To read an oid its dotted name is needed, and an oid does not know it:
`procfs_sysctl_build_name` searches the forest depth first and carries the name down the
recursion, in buffers of 256 bytes. Like the other searches it is a search by address in
one list, of the oids below named oids with the names they are reached by. What a path of
names leads to is in that list under the join of the path.

* `procfsSysctlBuildName_eq`: building a name is a search by address in that list.
* `OidAt.walk`: where the rest of a path leads from an oid.
* `procfsSysctlBuildName_of_path`: the name of an oid is the dotted join of the path to it.
-/

namespace ProcFS

/-! ## The search -/

/-- `strlcpy` into a buffer of `size` bytes, and what `snprintf` leaves in one. -/
def strlcpy (size : ℕ) (src : CString) : CString := src.take (size - 1)

/-- `sizeof(path)` in `procfs_sysctl_build_name`. -/
def pathSize : ℕ := 256

/-- `PROCFS_CTL_NAMEMAX`, the size of the buffer that `procfs_sysctl_read` passes. -/
def procfsCtlNamemax : ℕ := 256

/-- `path`: the name of an oid behind the one of its parent. -/
def oidPath (pre : CString) (name : OidName) : CString :=
  if pre ≠ [] then strlcpy pathSize (pre ++ cstr "." ++ name.bytes)
  else strlcpy pathSize name.bytes

mutual

/-- The name of `target` when it lies at or below an oid. -/
def SysctlOid.buildName (target : UInt64) (outsz : ℕ) (pre : CString) :
    SysctlOid → Option CString
  | .mk _ none _ _ _ => none
  | .mk a (some name) _ _ none =>
    if a = target then some (strlcpy outsz (oidPath pre name)) else none
  | .mk a (some name) k _ (some l) =>
    if a = target then some (strlcpy outsz (oidPath pre name))
    else if kindIsNode k then procfsSysctlBuildName target outsz (oidPath pre name) l else none

def procfsSysctlBuildName (target : UInt64) (outsz : ℕ) (pre : CString) :
    List SysctlOid → Option CString
  | [] => none
  | oid :: rest =>
    match oid.buildName target outsz pre with
    | some found => some found
    | none => procfsSysctlBuildName target outsz pre rest

end

/-! ## The search in one list -/

mutual

/-- An oid and everything below it, with the names; without what is below a nameless oid. -/
def SysctlOid.named (pre : CString) : SysctlOid → List (CString × SysctlOid)
  | .mk _ none _ _ _ => []
  | .mk a (some name) k m none => [(oidPath pre name, .mk a (some name) k m none)]
  | .mk a (some name) k m (some l) =>
    (oidPath pre name, .mk a (some name) k m (some l)) ::
      if kindIsNode k then namedList (oidPath pre name) l else []

/-- A list of oids and everything below them, with the names. -/
def namedList (pre : CString) : List SysctlOid → List (CString × SysctlOid)
  | [] => []
  | oid :: rest => oid.named pre ++ namedList pre rest

end

mutual

theorem SysctlOid.buildName_eq (target : UInt64) (outsz : ℕ) (pre : CString) :
    ∀ oid : SysctlOid, oid.buildName target outsz pre =
      ((oid.named pre).find? fun x => x.2.addr == target).map fun x => strlcpy outsz x.1
  | .mk _ none _ _ _ => by
    rw [SysctlOid.buildName, SysctlOid.named]
    rfl
  | .mk a (some name) k m none => by
    rw [SysctlOid.buildName, SysctlOid.named, List.find?_singleton, SysctlOid.addr]
    by_cases h : a = target <;> simp [h]
  | .mk a (some name) k m (some l) => by
    rw [SysctlOid.buildName, SysctlOid.named, List.find?_cons, SysctlOid.addr]
    by_cases h : a = target
    · simp [h]
    · have hne : (a == target) = false := beq_false_of_ne h
      by_cases hnode : kindIsNode k = true
      · simp [h, hne, hnode, procfsSysctlBuildName_eq target outsz (oidPath pre name) l]
      · simp [h, hne, hnode]

/-- Building a name is a search for the address. -/
theorem procfsSysctlBuildName_eq (target : UInt64) (outsz : ℕ) (pre : CString) :
    ∀ l : List SysctlOid, procfsSysctlBuildName target outsz pre l =
      ((namedList pre l).find? fun x => x.2.addr == target).map fun x => strlcpy outsz x.1
  | [] => rfl
  | oid :: rest => by
    rw [procfsSysctlBuildName, namedList, List.find?_append,
      SysctlOid.buildName_eq target outsz pre oid, procfsSysctlBuildName_eq target outsz pre rest]
    cases (oid.named pre).find? fun x => x.2.addr == target <;> rfl

end

mutual

theorem SysctlOid.map_named_sublist (pre : CString) :
    ∀ oid : SysctlOid, ((oid.named pre).map fun x => x.2.addr).Sublist oid.addrs
  | .mk _ none _ _ _ => by
    rw [SysctlOid.named]
    exact List.nil_sublist _
  | .mk a (some name) k m none => by
    rw [SysctlOid.named, SysctlOid.addrs]
    exact List.Sublist.refl _
  | .mk a (some name) k m (some l) => by
    rw [SysctlOid.named, SysctlOid.addrs, List.map_cons, SysctlOid.addr, List.cons_sublist_cons]
    split
    · exact map_namedList_sublist (oidPath pre name) l
    · exact List.Sublist.refl _

/-- The oids of the list are some of those of the forest. -/
theorem map_namedList_sublist (pre : CString) :
    ∀ l : List SysctlOid, ((namedList pre l).map fun x => x.2.addr).Sublist (addrsList l)
  | [] => List.Sublist.refl _
  | oid :: rest => by
    rw [namedList, addrsList, List.map_append]
    exact (SysctlOid.map_named_sublist pre oid).append (map_namedList_sublist pre rest)

end

theorem mem_namedList_top (pre : CString) {oid : SysctlOid} {name : OidName} {l : List SysctlOid}
    (h : oid ∈ l) (hname : oid.oidName = some name) :
    (oidPath pre name, oid) ∈ namedList pre l := by
  induction l with
  | nil => cases h
  | cons first rest ih =>
    rw [namedList, List.mem_append]
    rcases List.mem_cons.mp h with rfl | h
    · match oid with
      | .mk a (some n) k m none =>
        cases hname
        simp [SysctlOid.named]
      | .mk a (some n) k m (some l) =>
        cases hname
        simp [SysctlOid.named]
    · exact Or.inr (ih h)

mutual

theorem SysctlOid.mem_named_child {found child : SysctlOid} {list : List SysctlOid}
    {name : OidName} {p : CString} (hlist : found.childList = some list) (hchild : child ∈ list)
    (hname : child.oidName = some name) (pre : CString) :
    ∀ oid : SysctlOid, (p, found) ∈ oid.named pre → (oidPath p name, child) ∈ oid.named pre
  | .mk _ none _ _ _, h => by
    rw [SysctlOid.named] at h
    cases h
  | .mk a (some n) k m none, h => by
    rw [SysctlOid.named, List.mem_singleton] at h
    cases h
    cases (SysctlOid.childList_mk_eq_some.mp hlist).2
  | .mk a (some n) k m (some l), h => by
    rw [SysctlOid.named, List.mem_cons] at h ⊢
    rcases h with h | h
    · -- the oid itself: the child is in its list
      cases h
      rcases SysctlOid.childList_mk_eq_some.mp hlist with ⟨hnode, hl⟩
      cases hl
      rw [if_pos hnode]
      exact Or.inr (mem_namedList_top _ hchild hname)
    · by_cases hnode : kindIsNode k = true
      · rw [if_pos hnode] at h ⊢
        exact Or.inr (mem_namedList_child hlist hchild hname (oidPath pre n) l h)
      · rw [if_neg hnode] at h
        cases h

/-- The named children of an oid of the list are in the list, behind its name. -/
theorem mem_namedList_child {found child : SysctlOid} {list : List SysctlOid}
    {name : OidName} {p : CString} (hlist : found.childList = some list) (hchild : child ∈ list)
    (hname : child.oidName = some name) (pre : CString) :
    ∀ l : List SysctlOid, (p, found) ∈ namedList pre l →
      (oidPath p name, child) ∈ namedList pre l
  | oid :: rest, h => by
    rw [namedList, List.mem_append] at h ⊢
    rcases h with h | h
    · exact Or.inl (SysctlOid.mem_named_child hlist hchild hname pre oid h)
    · exact Or.inr (mem_namedList_child hlist hchild hname pre rest h)

end

/-! ## Paths -/

/-- What a path of names leads to, step by step from a directory. -/
def sysctlWalk (roots : List SysctlOid) (dirObjectid : UInt64) (path : List CString) :
    Option UInt64 :=
  path.foldlM (procfsSysctlFind roots) dirObjectid

/-- The names of the oids along a path from the root. -/
def oidNames : List CString → List CString
  | [] => []
  | first :: rest => soughtName 0 first :: rest

/-- Their dotted join. -/
def mibName (path : List CString) : CString := (cstr ".").intercalate (oidNames path)

/-- Every oid that has a name has one that is not empty. -/
def OidsNamed (roots : List SysctlOid) : Prop :=
  ∀ x ∈ visitedList 0 roots, ∀ name, x.2.oidName = some name → name.bytes ≠ []

/-- The rest of a path behind a name. -/
def joined (pre : CString) (rest : List CString) : CString :=
  pre ++ rest.flatMap fun name => cstr "." ++ name

theorem joined_cons (pre name : CString) (rest : List CString) :
    joined pre (name :: rest) = joined (pre ++ cstr "." ++ name) rest := by
  simp only [joined, List.flatMap_cons, List.append_assoc]

theorem length_le_joined (pre : CString) (rest : List CString) :
    pre.length ≤ (joined pre rest).length := by
  rw [joined, List.length_append]
  omega

theorem mibName_cons (first : CString) (rest : List CString) :
    mibName (first :: rest) = joined (soughtName 0 first) rest := by
  rw [mibName, oidNames]
  generalize soughtName 0 first = pre
  induction rest generalizing pre with
  | nil => rw [List.intercalate_singleton, joined, List.flatMap_nil, List.append_nil]
  | cons name rest ih =>
    rw [List.intercalate_cons_cons, ih, joined_cons]
    simp only [joined, List.append_assoc]

section Walk

variable {roots : List SysctlOid}

/-- A search finds a child of the directory of that name, or something synthetic. -/
theorem procfsSysctlFind_oid {d a : UInt64} {name : CString}
    (h : procfsSysctlFind roots d name = some a) :
    procfsSynIs a = true ∨ ∃ list oid n, procfsSysctlChildren roots d = some list ∧ oid ∈ list ∧
      oid.addr = a ∧ oid.oidName = some n ∧ n.bytes = soughtName d name := by
  rw [procfsSysctlFind_eq] at h
  obtain ⟨child, hfind, rfl⟩ := Option.map_eq_some_iff.mp h
  have hmem := List.mem_of_find?_eq_some hfind
  have hbytes : child.name.bytes = soughtName d name := by simpa using List.find?_some hfind
  unfold sysctlListing at hmem
  split at hmem
  · -- the leaves below `random`
    obtain ⟨leaf, hleaf, rfl⟩ := List.mem_map.mp hmem
    left
    simp only [procfsRandomLeaves, List.mem_cons, List.not_mem_nil, or_false] at hleaf
    rcases hleaf with rfl | rfl | rfl | rfl <;> rfl
  · split at hmem
    · cases hmem
    · rename_i list hlist
      rcases List.mem_append.mp hmem with hreal | hsyn
      · obtain ⟨oid, hoid, hchild⟩ := List.mem_filterMap.mp hreal
        obtain ⟨hname, haddr⟩ := visibleChild_eq_some hchild
        exact Or.inr ⟨list, oid, child.name, hlist, hoid, haddr.symm, hname, hbytes⟩
      · split at hsyn
        · -- `random` itself, in `kern`
          rw [List.mem_singleton] at hsyn
          rw [hsyn]
          exact Or.inl rfl
        · cases hsyn

/-- There is nothing real behind the synthetic directory. -/
theorem sysctlWalk_syn (haddrs : OidsAboveSyn roots) {d a : UInt64} {path : List CString}
    (hd : procfsSynIs d = true) (h : sysctlWalk roots d path = some a) : procfsSynIs a = true := by
  induction path generalizing d with
  | nil =>
    cases h
    exact hd
  | cons name path ih =>
    rw [sysctlWalk, List.foldlM_cons, Option.bind_eq_bind, Option.bind_eq_some_iff] at h
    obtain ⟨next, hnext, hrest⟩ := h
    rcases procfsSysctlFind_oid hnext with hsyn | ⟨list, oid, n, hlist, -⟩
    · exact ih hsyn hrest
    · -- a synthetic id is not the address of an oid with children
      rcases procfsSysctlChildren_eq_some.mp hlist with ⟨rfl, -⟩ | ⟨-, found, hderef, -⟩
      · cases hd
      · rw [derefList_eq d 0] at hderef
        obtain ⟨x, hfind, rfl⟩ := Option.map_eq_some_iff.mp hderef
        have haddr : x.2.addr = d := by simpa using List.find?_some hfind
        have hmem : d ∈ addrsList roots := by
          rw [← map_visitedList 0, ← haddr]
          exact List.mem_map.mpr ⟨x, List.mem_of_find?_eq_some hfind, rfl⟩
        rw [(haddrs.mem hmem).2] at hd
        cases hd

/-- The list has the oid at an address under a name. -/
structure OidAt (roots : List SysctlOid) (d : UInt64) (pre : CString) : Prop where
  addr_ne : d ≠ 0
  pre_ne : pre ≠ []
  mem : ∃ oid, derefList d roots = some oid ∧ oid.addr = d ∧ (pre, oid) ∈ namedList [] roots

/-- The name with one more oid. -/
def nextName (d : UInt64) (pre name : CString) : CString :=
  if d = 0 then soughtName 0 name else pre ++ cstr "." ++ name

/-- One step of a walk, from the root or from an oid. -/
theorem OidAt.find (honce : OidsOnce roots) (haddrs : OidsAboveSyn roots)
    (hnamed : OidsNamed roots) {d a : UInt64} (pre : CString) {name : CString}
    (h : d = 0 ∨ OidAt roots d pre)
    (hfind : procfsSysctlFind roots d name = some a) (hreal : procfsSynIs a = false)
    (hlen : (nextName d pre name).length < pathSize) :
    OidAt roots a (nextName d pre name) := by
  have hsize : pathSize = 256 := rfl
  rcases procfsSysctlFind_oid hfind with hsyn | ⟨list, oid, n, hlist, hoid, rfl, hname, hbytes⟩
  · rw [hsyn] at hreal
    cases hreal
  · have hvisited := mem_visitedList_of_children hlist hoid
    have hne := hnamed _ hvisited n hname
    have hpath : (nextName d pre name, oid) ∈ namedList [] roots := by
      rcases h with rfl | ⟨hd, hpre, found, hderef, -, hfound⟩
      · rw [nextName, if_pos rfl] at hlen ⊢
        rcases procfsSysctlChildren_eq_some.mp hlist with ⟨-, rfl⟩ | ⟨hd, -⟩
        · have htop := mem_namedList_top [] hoid hname
          rw [oidPath, if_neg (by simp), hbytes, strlcpy, List.take_of_length_le (by omega)] at htop
          exact htop
        · exact absurd rfl hd
      · have hsought : soughtName d name = name := if_neg fun hzero => hd hzero.1
        rw [nextName, if_neg hd] at hlen ⊢
        rcases procfsSysctlChildren_eq_some.mp hlist with ⟨hzero, -⟩ | ⟨-, found', hderef', hlist'⟩
        · exact absurd hzero hd
        · rw [hderef, Option.some.injEq] at hderef'
          subst hderef'
          have hchild := mem_namedList_child hlist' hoid hname [] roots hfound
          rw [oidPath, if_pos hpre, hbytes, hsought, strlcpy, List.take_of_length_le (by omega)]
            at hchild
          exact hchild
    refine ⟨(haddrs.child hlist hoid).1, ?_, oid, derefList_of_children honce hlist hoid,
      rfl, hpath⟩
    unfold nextName
    split
    · rename_i hd
      rw [← hd, ← hbytes]
      exact hne
    · simp [cstr]

theorem synIs_of_walk (haddrs : OidsAboveSyn roots) {d a : UInt64} {path : List CString}
    (hwalk : sysctlWalk roots d path = some a) (hreal : procfsSynIs a = false) :
    procfsSynIs d = false := by
  by_contra hsyn
  rw [Bool.not_eq_false] at hsyn
  rw [sysctlWalk_syn haddrs hsyn hwalk] at hreal
  cases hreal

/-- The rest of a walk from an oid. -/
theorem OidAt.walk (honce : OidsOnce roots) (haddrs : OidsAboveSyn roots)
    (hnamed : OidsNamed roots) {d a : UInt64} {pre : CString} {path : List CString}
    (h : OidAt roots d pre) (hwalk : sysctlWalk roots d path = some a)
    (hreal : procfsSynIs a = false) (hlen : (joined pre path).length < pathSize) :
    OidAt roots a (joined pre path) := by
  induction path generalizing d pre with
  | nil =>
    cases hwalk
    rw [joined, List.flatMap_nil, List.append_nil]
    exact h
  | cons name path ih =>
    rw [sysctlWalk, List.foldlM_cons, Option.bind_eq_bind, Option.bind_eq_some_iff] at hwalk
    obtain ⟨next, hfind, hrest⟩ := hwalk
    have hname : nextName d pre name = pre ++ cstr "." ++ name := if_neg h.addr_ne
    rw [joined_cons, ← hname] at hlen ⊢
    exact ih (OidAt.find honce haddrs hnamed _ (Or.inr h) hfind (synIs_of_walk haddrs hrest hreal)
      (Nat.lt_of_le_of_lt (length_le_joined _ path) hlen)) hrest hlen

/-- What a path leads to has its name from the path. -/
theorem oidAt_of_path (honce : OidsOnce roots) (haddrs : OidsAboveSyn roots)
    (hnamed : OidsNamed roots) {path : List CString} {a : UInt64}
    (hwalk : sysctlWalk roots 0 path = some a) (hreal : a ∈ addrsList roots)
    (hlen : (mibName path).length < pathSize) : OidAt roots a (mibName path) := by
  rcases haddrs.mem hreal with ⟨hne, hsyn⟩
  cases path with
  | nil =>
    cases hwalk
    exact absurd rfl hne
  | cons first rest =>
    rw [mibName_cons] at hlen ⊢
    rw [sysctlWalk, List.foldlM_cons, Option.bind_eq_bind, Option.bind_eq_some_iff] at hwalk
    rcases hwalk with ⟨top, hfind, hrest⟩
    have htop : OidAt roots top (soughtName 0 first) :=
      OidAt.find honce haddrs hnamed [] (Or.inl rfl) hfind (synIs_of_walk haddrs hrest hsyn)
        (Nat.lt_of_le_of_lt (length_le_joined _ rest) hlen)
    exact htop.walk honce haddrs hnamed hrest hsyn hlen

/-- The search for the address of an oid finds the name. -/
theorem OidAt.buildName (honce : OidsOnce roots) {a : UInt64} {name : CString}
    (h : OidAt roots a name) (hlen : name.length < procfsCtlNamemax) :
    procfsSysctlBuildName a procfsCtlNamemax [] roots = some name := by
  rcases h.mem with ⟨oid, -, rfl, hmem⟩
  -- each oid occurs once, so the search for the address ends at this one
  have hnodup : ((namedList [] roots).map fun x => x.2.addr).Nodup :=
    List.Nodup.sublist (map_namedList_sublist [] roots) honce
  rw [procfsSysctlBuildName_eq, (Lib.find?_eq_some_iff_of_nodup hnodup).mpr ⟨hmem, rfl⟩,
    Option.map_some]
  exact congrArg some (List.take_of_length_le (Nat.le_sub_one_of_lt hlen))

/-- What a path of names leads to has the dotted join of the names for its MIB name, if
it is a real oid and the join fits. -/
theorem procfsSysctlBuildName_of_path (honce : OidsOnce roots) (haddrs : OidsAboveSyn roots)
    (hnamed : OidsNamed roots) {path : List CString} {a : UInt64}
    (hwalk : sysctlWalk roots 0 path = some a) (hreal : a ∈ addrsList roots)
    (hlen : (mibName path).length < 256) :
    procfsSysctlBuildName a procfsCtlNamemax [] roots = some (mibName path) := by
  exact (oidAt_of_path honce haddrs hnamed hwalk hreal hlen).buildName honce hlen

end Walk

theorem ostype_fits : (cstr "ostype").length < maxpathlen := by decide

theorem kern_fits : (cstr "kern").length < maxpathlen := by decide

/-- `kern` with one string below it. -/
def kernOstype : List SysctlOid :=
  [.mk 4096 (some ⟨cstr "kern", kern_fits⟩) 1 1
    (some [.mk 8192 (some ⟨cstr "ostype", ostype_fits⟩) 3 1 none])]

theorem kernOstype_addrs : addrsList kernOstype = [4096, 8192] := by decide

theorem kernOstype_once : OidsOnce kernOstype := by
  rw [OidsOnce, kernOstype_addrs]
  decide

theorem kernOstype_above : OidsAboveSyn kernOstype := by
  intro a ha
  rw [kernOstype_addrs] at ha
  simp only [List.mem_cons, List.not_mem_nil, or_false] at ha
  rcases ha with rfl | rfl <;> decide

theorem kernOstype_named : OidsNamed kernOstype := by
  intro x hx name hname
  simp only [kernOstype, visitedList, SysctlOid.visited, List.append_nil, List.mem_cons,
    show kindIsNode 1 = true from rfl, if_true, List.not_mem_nil, or_false] at hx
  rcases hx with rfl | rfl <;> cases hname <;> decide

/-- The Linux path of `kern.ostype`. -/
theorem procfsSysctlBuildName_ostype :
    procfsSysctlBuildName 8192 procfsCtlNamemax [] kernOstype = some (cstr "kern.ostype") := by
  have hname : mibName [cstr "kernel", cstr "ostype"] = cstr "kern.ostype" := by decide
  rw [← hname]
  exact procfsSysctlBuildName_of_path kernOstype_once kernOstype_above kernOstype_named (by decide)
    (by rw [kernOstype_addrs]; decide) (by decide)

end ProcFS
