import ProcFS.Types

/-!
# ProcFS.Sysctl — the dynamic `/proc/sys` tree

Every `/proc/sys` node is an instance of the one `PFSsysctl` structure node,
told apart by its object id: 0 for the root of the sysctl tree, a small
sentinel for a synthetic node, and otherwise the address of a
`struct sysctl_oid`. The oids themselves belong to the kernel; here they are a
finite forest.

* `procfsSysctlChildAt_eq`: `procfs_sysctl_child_at` enumerates the listing of a directory.
* `procfsSysctlFind_eq`: `procfs_sysctl_find` finds the first child of the name in it.
-/

namespace ProcFS

/-! ## The oid forest -/

/-- `MAXPATHLEN`, the bound the kernel puts on sysctl names, and the size of
`d_name`. -/
def maxpathlen : ℕ := 1024

/-- The name of an oid, short enough for the kernel to look it up. -/
structure OidName where
  bytes : CString
  fits : bytes.length < maxpathlen
deriving DecidableEq

/-- `struct sysctl_oid`: its address, `oid_name`, `oid_kind`, `oid_number` and,
through `oid_arg1`, its list of children. -/
inductive SysctlOid where
  | mk (addr : UInt64) (oidName : Option OidName) (oidKind : UInt32) (oidNumber : ℤ)
      (oidArg1 : Option (List SysctlOid))

namespace SysctlOid

/-- The address, as stored in an object id. -/
def addr : SysctlOid → UInt64
  | mk a _ _ _ _ => a

def oidName : SysctlOid → Option OidName
  | mk _ n _ _ _ => n

def oidKind : SysctlOid → UInt32
  | mk _ _ k _ _ => k

def oidNumber : SysctlOid → ℤ
  | mk _ _ _ n _ => n

def oidArg1 : SysctlOid → Option (List SysctlOid)
  | mk _ _ _ _ l => l

end SysctlOid

/-- `oid_kind & CTLTYPE == CTLTYPE_NODE`. -/
def kindIsNode (kind : UInt32) : Bool := kind &&& 0xf == 1

def ctlflagMasked : UInt32 := 0x04000000

/-- `OID_MUTABLE_ANCHOR`, which is `INT_MIN`. -/
def oidMutableAnchor : ℤ := -2147483648

mutual

/-- The oid at an address, at or below a given oid; only a node oid has a child
list behind `oid_arg1`. -/
def SysctlOid.deref (target : UInt64) : SysctlOid → Option SysctlOid
  | .mk a n k m none => if a = target then some (.mk a n k m none) else none
  | .mk a n k m (some l) =>
    if a = target then some (.mk a n k m (some l))
    else if kindIsNode k then derefList target l else none

/-- The oid at an address, in a list of oids and everything below it. -/
def derefList (target : UInt64) : List SysctlOid → Option SysctlOid
  | [] => none
  | oid :: rest =>
    match oid.deref target with
    | some found => some found
    | none => derefList target rest

end

/-! ## Synthetic nodes -/

/-- `PROCFS_SYN_RANDOM`: the directory `kernel/random`. -/
def procfsSynRandom : UInt64 := 1

def procfsSynMax : UInt64 := 6

def procfsSynIs (id : UInt64) : Bool := procfsSynRandom ≤ id && id < procfsSynMax

def procfsRandomLeaves : List (OidName × UInt64) :=
  [(⟨cstr "boot_id", by decide⟩, 2), (⟨cstr "entropy_avail", by decide⟩, 3),
   (⟨cstr "poolsize", by decide⟩, 4), (⟨cstr "uuid", by decide⟩, 5)]

/-- `procfs_sysctl_kern_objectid`: the first top-level oid named `kern`, or 0. -/
def procfsSysctlKernObjectid (roots : List SysctlOid) : UInt64 :=
  match roots.find? fun oid => oid.oidName.any fun n => n.bytes == cstr "kern" with
  | some oid => oid.addr
  | none => 0

/-! ## The interface driven by the vnode operations -/

/-- `procfs_sysctl_children`: `sysctl__children` for the root, the child list
of a node oid, and no list for a leaf. -/
def procfsSysctlChildren (roots : List SysctlOid) (objectid : UInt64) :
    Option (List SysctlOid) :=
  if objectid = 0 then some roots
  else
    match derefList objectid roots with
    | some oid => if kindIsNode oid.oidKind then oid.oidArg1 else none
    | none => none

def procfsSysctlHidden (oid : SysctlOid) : Bool :=
  oid.oidName.isNone || oid.oidKind &&& ctlflagMasked != 0 || oid.oidNumber == oidMutableAnchor

def procfsSysctlIsNode (roots : List SysctlOid) (objectid : UInt64) : Bool :=
  if objectid = 0 then true
  else if procfsSynIs objectid then objectid == procfsSynRandom
  else (derefList objectid roots).any fun oid => kindIsNode oid.oidKind

/-- Whether a directory object id can be followed: it is the root, the synthetic
directory, or the address of an oid that is registered. The code does not ask: it
follows the address of an oid that is gone into memory that may hold anything. -/
def oidRegistered (roots : List SysctlOid) (objectid : UInt64) : Bool :=
  objectid == 0 || objectid == procfsSynRandom || (derefList objectid roots).isSome

/-- `procfs_sysctl_find`: a named child of a directory object id. -/
def procfsSysctlFind (roots : List SysctlOid) (dirObjectid : UInt64) (name : CString) :
    Option UInt64 :=
  -- Linux-compatibility alias: "kernel" at the root stands for "kern"
  let name := if dirObjectid = 0 ∧ name = cstr "kernel" then cstr "kern" else name
  if dirObjectid = procfsSynRandom then
    (procfsRandomLeaves.find? fun leaf => leaf.1.bytes == name).map (·.2)
  else
    match procfsSysctlChildren roots dirObjectid with
    | none => none
    | some list =>
      match list.find? fun oid =>
          !procfsSysctlHidden oid && oid.oidName.any fun n => n.bytes == name with
      | some oid => some oid.addr
      | none =>
        -- the synthetic random directory is grafted in as a child of kern
        if name = cstr "random" ∧ dirObjectid = procfsSysctlKernObjectid roots then
          some procfsSynRandom
        else none

/-- What `procfs_sysctl_child_at` reports of a child. -/
structure SysctlChild where
  name : OidName
  isNode : Bool
  objectid : UInt64

/-- The synthetic directory, as a child of `kern`. -/
def randomChild : SysctlChild := ⟨⟨cstr "random", by decide⟩, true, procfsSynRandom⟩

@[simp] theorem randomChild_objectid : randomChild.objectid = procfsSynRandom := rfl

/-- The `SLIST_FOREACH` of `procfs_sysctl_child_at`, with the visible oids
counted in `i`: the child at `index`, or the count reached at the end. -/
def childAtLoop (index : ℕ) : ℕ → List SysctlOid → SysctlChild ⊕ ℕ
  | i, [] => .inr i
  | i, oid :: rest =>
    match oid.oidName with
    | none => childAtLoop index i rest
    | some name =>
      if procfsSysctlHidden oid then childAtLoop index i rest
      else if i = index then .inl ⟨name, kindIsNode oid.oidKind, oid.addr⟩
      else childAtLoop index (i + 1) rest

def procfsSysctlChildAt (roots : List SysctlOid) (dirObjectid : UInt64) (index : ℕ) :
    Option SysctlChild :=
  if dirObjectid = procfsSynRandom then
    procfsRandomLeaves[index]?.map fun leaf => ⟨leaf.1, false, leaf.2⟩
  else
    match procfsSysctlChildren roots dirObjectid with
    | none => none
    | some list =>
      match childAtLoop index 0 list with
      | .inl child => some child
      | .inr i =>
        -- kern's last child, just past its real children
        if index = i ∧ dirObjectid = procfsSysctlKernObjectid roots then
          some randomChild
        else none

mutual

/-- The parent of `target` when it lies at or below an oid whose own parent is
`parentId`. -/
def SysctlOid.findParent (target parentId : UInt64) : SysctlOid → Option UInt64
  | .mk a _ _ _ none => if a = target then some parentId else none
  | .mk a _ k _ (some l) =>
    if a = target then some parentId
    else if kindIsNode k then procfsSysctlFindParent target a l else none

/-- `procfs_sysctl_find_parent`: depth-first search for `target`, carrying the
current parent id down the recursion. -/
def procfsSysctlFindParent (target parentId : UInt64) : List SysctlOid → Option UInt64
  | [] => none
  | oid :: rest =>
    match oid.findParent target parentId with
    | some found => some found
    | none => procfsSysctlFindParent target parentId rest

end

/-- `procfs_sysctl_parent`; `none` is a FALSE return, which leaves the caller's
parent id at 0. -/
def procfsSysctlParent (roots : List SysctlOid) (objectid : UInt64) : Option UInt64 :=
  if objectid = 0 then none
  else if objectid = procfsSynRandom then some (procfsSysctlKernObjectid roots)
  else if procfsSynIs objectid then some procfsSynRandom
  else procfsSysctlFindParent objectid 0 roots

/-! ## What an enumeration yields -/

/-- The child that stands for an oid, unless it is hidden. -/
def visibleChild (oid : SysctlOid) : Option SysctlChild :=
  match oid.oidName with
  | none => none
  | some name =>
    if procfsSysctlHidden oid then none else some ⟨name, kindIsNode oid.oidKind, oid.addr⟩

/-- The children of a directory object id: the visible oids in order, and the
synthetic directory at the end of `kern`. -/
def sysctlListing (roots : List SysctlOid) (dirObjectid : UInt64) : List SysctlChild :=
  if dirObjectid = procfsSynRandom then
    procfsRandomLeaves.map fun leaf => ⟨leaf.1, false, leaf.2⟩
  else
    match procfsSysctlChildren roots dirObjectid with
    | none => []
    | some list =>
      list.filterMap visibleChild ++
        if dirObjectid = procfsSysctlKernObjectid roots then
          [randomChild]
        else []

/-- The loop finds the visible oid at the index, or counts them all. -/
theorem childAtLoop_eq (list : List SysctlOid) {index i : ℕ} (hi : i ≤ index) :
    childAtLoop index i list =
      match (list.filterMap visibleChild)[index - i]? with
      | some child => .inl child
      | none => .inr (i + (list.filterMap visibleChild).length) := by
  induction list generalizing i with
  | nil => simp [childAtLoop]
  | cons oid rest ih =>
    cases hname : oid.oidName with
    | none => simp [childAtLoop, hname, visibleChild, ih hi]
    | some name =>
      by_cases hhidden : procfsSysctlHidden oid = true
      · simp [childAtLoop, hname, visibleChild, hhidden, ih hi]
      · by_cases heq : i = index
        · simp [childAtLoop, hname, visibleChild, hhidden, heq]
        · obtain ⟨d, hd⟩ : ∃ d, index - i = d + 1 := ⟨index - i - 1, by omega⟩
          have hd' : index - (i + 1) = d := by omega
          simp only [childAtLoop, hname, visibleChild, hhidden, heq,
            ih (show i + 1 ≤ index by omega),
            List.filterMap_cons, hd, hd', if_false, Bool.false_eq_true, List.getElem?_cons_succ,
            List.length_cons]
          split <;> simp_all [Nat.add_comm, Nat.add_left_comm]

/-- Indexing with `procfs_sysctl_child_at` enumerates the listing. -/
theorem procfsSysctlChildAt_eq (roots : List SysctlOid) (dirObjectid : UInt64) (index : ℕ) :
    procfsSysctlChildAt roots dirObjectid index = (sysctlListing roots dirObjectid)[index]? := by
  unfold procfsSysctlChildAt sysctlListing
  split
  · simp
  · split
    · rfl
    · rename_i list _
      rw [childAtLoop_eq list (Nat.zero_le index), Nat.sub_zero, Nat.zero_add]
      generalize list.filterMap visibleChild = visible
      rw [List.getElem?_append]
      by_cases hlt : index < visible.length
      · simp [hlt]
      · -- past the visible oids there is at most the synthetic directory
        rw [List.getElem?_eq_none (by omega), if_neg hlt]
        by_cases hkern : dirObjectid = procfsSysctlKernObjectid roots
        · by_cases heq : index = visible.length
          · simp [hkern, heq]
          · obtain ⟨d, hd⟩ : ∃ d, index - visible.length = d + 1 :=
              ⟨index - visible.length - 1, by omega⟩
            simp [hkern, heq, hd]
        · simp [hkern]

/-! ## What a search finds -/

/-- The name that `procfs_sysctl_find` compares with. -/
def soughtName (dirObjectid : UInt64) (name : CString) : CString :=
  if dirObjectid = 0 ∧ name = cstr "kernel" then cstr "kern" else name

theorem visibleChild_any (oid : SysctlOid) (name : CString) :
    (visibleChild oid).any (fun child => child.name.bytes == name) =
      (!procfsSysctlHidden oid && oid.oidName.any fun n => n.bytes == name) := by
  unfold visibleChild
  cases hname : oid.oidName with
  | none => simp
  | some n =>
    by_cases hhidden : procfsSysctlHidden oid = true
    · simp [hhidden]
    · simp [hhidden]

theorem visibleChild_eq_some {oid : SysctlOid} {child : SysctlChild}
    (h : visibleChild oid = some child) :
    oid.oidName = some child.name ∧ child.objectid = oid.addr := by
  unfold visibleChild at h
  split at h
  · cases h
  · rename_i hname
    split at h
    · cases h
    · cases h
      exact ⟨hname, rfl⟩

theorem visibleChild_objectid {oid : SysctlOid} {child : SysctlChild}
    (h : visibleChild oid = some child) : child.objectid = oid.addr :=
  (visibleChild_eq_some h).2

/-- The search finds the first child of that name in the listing. -/
theorem procfsSysctlFind_eq (roots : List SysctlOid) (dirObjectid : UInt64) (name : CString) :
    procfsSysctlFind roots dirObjectid name =
      ((sysctlListing roots dirObjectid).find? fun child =>
        child.name.bytes == soughtName dirObjectid name).map SysctlChild.objectid := by
  simp only [procfsSysctlFind, sysctlListing, soughtName]
  generalize (if dirObjectid = 0 ∧ name = cstr "kernel" then cstr "kern" else name) = sought
  split
  · rw [List.find?_map, Option.map_map]
    rfl
  · cases procfsSysctlChildren roots dirObjectid with
    | none => rfl
    | some list =>
      simp only [List.find?_append, List.find?_filterMap, visibleChild_any]
      cases hfind : list.find? fun oid =>
          !procfsSysctlHidden oid && oid.oidName.any fun n => n.bytes == sought with
      | some oid =>
        -- a visible oid
        have hvisible := List.find?_some hfind
        rw [← visibleChild_any, Option.any_eq_true] at hvisible
        obtain ⟨child, hchild, -⟩ := hvisible
        simp [hchild, visibleChild_objectid hchild]
      | none =>
        -- or the synthetic directory
        by_cases hkern : dirObjectid = procfsSysctlKernObjectid roots
        · by_cases hrandom : sought = cstr "random"
          · simp [hkern, hrandom, randomChild]
          · simp [hkern, hrandom, Ne.symm hrandom, randomChild]
        · simp [hkern]

end ProcFS
