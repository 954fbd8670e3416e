import Mathlib.Order.Basic
import ProcFS.Structure

/-!
# ProcFS.Layout — what every built tree looks like

`next_node_id` is never reset, so each building of the structure tree gives its
nodes other base ids. Everything else about the tree is the same each time:
its *shape*. Facts about the shape are therefore checked on one tree and hold
for every tree that `procfs_structure_init` builds.

* `procfsStructureInit_sameShape`: every building gives the same shape.
* `procfsStructureInit_layoutOk`: what lookup, readdir and the id functions expect of the children
  of a node.
* `eq_of_psnBaseNodeId`: nodes other than the root never share a base id.
-/

namespace ProcFS

/-! ## Two runs side by side

A relational triple without preconditions of its own: started in related states, two programs return
related values in related states. The rules follow the programs, so that a fact about two long
straight-line programs reduces to one fact for each primitive they call. -/

section Relate

variable {σ α β γ δ : Type}

/-- Started in `R`-related states, `m` and `m'` return `V`-related values and end
in `R`-related states. -/
def Relate (R : σ → σ → Prop) (V : α → β → Prop) (m : StateM σ α) (m' : StateM σ β) : Prop :=
  ∀ s s', R s s' → V (m.run s).1 (m'.run s').1 ∧ R (m.run s).2 (m'.run s').2

theorem Relate.pure {R : σ → σ → Prop} {V : α → β → Prop} {a : α} {b : β} (h : V a b) :
    Relate R V (Pure.pure a) (Pure.pure b) :=
  fun _ _ hR => ⟨h, hR⟩

theorem Relate.bind {R : σ → σ → Prop} {V : α → β → Prop} {W : γ → δ → Prop}
    {m : StateM σ α} {m' : StateM σ β} {f : α → StateM σ γ} {f' : β → StateM σ δ}
    (hm : Relate R V m m') (hf : ∀ a b, V a b → Relate R W (f a) (f' b)) :
    Relate R W (m >>= f) (m' >>= f') := by
  intro s s' hR
  obtain ⟨hV, hR'⟩ := hm s s' hR
  exact hf _ _ hV _ _ hR'

end Relate

/-! ## Shapes -/

/-- A structure node without what depends on the building of the tree. -/
def Pfssnode.shape (s : Pfssnode) : Pfssnode :=
  { s with psnBuild := 0, psnBaseNodeId := 0 }

def SnodeTree.shape (t : SnodeTree) : List Pfssnode := t.nodes.map Pfssnode.shape

def SameShape (t t' : SnodeTree) : Prop := t.shape = t'.shape

theorem SameShape.length_eq {t t' : SnodeTree} (h : SameShape t t') :
    t.nodes.length = t'.nodes.length := by
  have hlen := congrArg List.length h
  simpa [SnodeTree.shape] using hlen

theorem SameShape.inheritedFlags_eq {t t' : SnodeTree} (h : SameShape t t') (p : Option ℕ) :
    inheritedFlags t p = inheritedFlags t' p := by
  cases p with
  | none => rfl
  | some a =>
    have hnode : (t.nodes[a]?).map Pfssnode.shape = (t'.nodes[a]?).map Pfssnode.shape := by
      rw [← List.getElem?_map, ← List.getElem?_map]
      exact congrArg (·[a]?) h
    simp only [inheritedFlags, Option.bind_some, SnodeTree.node?]
    cases hs : t.nodes[a]? <;> cases hs' : t'.nodes[a]? <;> simp [hs, hs'] at hnode ⊢
    have hflags := congrArg Pfssnode.psnFlags hnode
    simp only [Pfssnode.shape] at hflags
    rw [hflags]

/-! ## What the building of the tree keeps -/

/-- The calls that add a node other than the root: it gets the next id. -/
def addNextNode (parent : Option ℕ) (name : String) (type : PfsType) (flags : UInt16) :
    StateM SnodeTree ℕ :=
  nextNodeId >>= fun id => addNode parent name type id flags

/-- The node that the call adds. -/
def nextNode (t : SnodeTree) (parent : Option ℕ) (name : String) (type : PfsType)
    (flags : UInt16) : Pfssnode where
  psnBuild := t.build
  psnAddr := t.nodes.length
  psnNodeType := type
  psnName := (cstr name).take (maxStructNodeNameLen - 1)
  psnBaseNodeId := t.nextNodeId
  psnFlags := flags ||| inheritedFlags t parent
  psnParent := parent

theorem addNextNode_run (parent : Option ℕ) (name : String) (type : PfsType) (flags : UInt16)
    (t : SnodeTree) :
    (addNextNode parent name type flags).run t =
      (t.nodes.length, ⟨t.build, t.nodes ++ [nextNode t parent name type flags],
        t.nextNodeId + 1⟩) := rfl

/-- A relation between two trees that is kept when the same calls are made on both. -/
structure KeptByCalls (R : SnodeTree → SnodeTree → Prop) : Prop where
  add : ∀ (parent : Option ℕ) (name : String) (type : PfsType) (flags : UInt16),
    Relate R Eq (addNextNode parent name type flags) (addNextNode parent name type flags)

def rootAdded (build : ℕ) (next : UInt16) : SnodeTree :=
  ((addDirectory none "/" .root procfsRootNodeBaseId 0).run ⟨build, [], next⟩).2

namespace KeptByCalls

variable {R : SnodeTree → SnodeTree → Prop}

variable (hR : KeptByCalls R)
include hR

/-- A node added with the next id, and what follows. -/
theorem addNext {γ : Type} {f : ℕ → StateM SnodeTree γ} (parent : Option ℕ) (name : String)
    (type : PfsType) (flags : UInt16) (hf : ∀ a, Relate R Eq (f a) (f a)) :
    Relate R Eq (nextNodeId >>= fun id => addNode parent name type id flags >>= f)
      (nextNodeId >>= fun id => addNode parent name type id flags >>= f) := by
  have hassoc : (nextNodeId >>= fun id => addNode parent name type id flags >>= f) =
      addNextNode parent name type flags >>= f := (bind_assoc _ _ _).symm
  rw [hassoc]
  refine Relate.bind (hR.add parent name type flags) ?_
  rintro a _ rfl
  exact hf a

/-- A directory added with the next id, and what follows. -/
theorem addDirectory {γ : Type} {f : ℕ → StateM SnodeTree γ} (parent : Option ℕ) (name : String)
    (type : PfsType) (flags : UInt16) (hf : ∀ a, Relate R Eq (f a) (f a)) :
    Relate R Eq (nextNodeId >>= fun id => addDirectory parent name type id flags >>= f)
      (nextNodeId >>= fun id => addDirectory parent name type id flags >>= f) := by
  unfold ProcFS.addDirectory
  simp only [bind_assoc, pure_bind]
  refine hR.addNext _ _ _ _ fun snode => ?_
  refine hR.addNext _ _ _ _ fun _ => ?_
  exact hR.addNext _ _ _ _ fun _ => hf snode

theorem addNodes (parent : ℕ) (flags : UInt16) (rows : List (String × PfsType)) :
    Relate R Eq (addNodes parent flags rows) (addNodes parent flags rows) := by
  induction rows with
  | nil => exact Relate.pure rfl
  | cons row rest ih =>
    obtain ⟨name, type⟩ := row
    exact hR.addNext parent name type flags fun _ => ih

theorem addFiles (parent : ℕ) (flags : UInt16) (names : List String) :
    Relate R Eq (addFiles parent flags names) (addFiles parent flags names) := by
  induction names with
  | nil => exact Relate.pure rfl
  | cons name rest ih => exact hR.addNext parent name .file flags fun _ => ih

theorem addRootDirectories (rootNode : ℕ) :
    Relate R Eq (addRootDirectories rootNode) (addRootDirectories rootNode) := by
  unfold ProcFS.addRootDirectories
  repeat
    first
    | with_reducible refine hR.addDirectory _ _ _ _ fun _ => ?_
    | with_reducible refine hR.addNext _ _ _ _ fun _ => ?_
  exact Relate.pure rfl

theorem addNetDirectory (rootNode : ℕ) :
    Relate R Eq (addNetDirectory rootNode) (addNetDirectory rootNode) :=
  hR.addDirectory _ _ _ _ fun _ => hR.addNodes _ _ _

theorem addProcessFiles (oneProcDir : ℕ) :
    Relate R Eq (addProcessFiles oneProcDir) (addProcessFiles oneProcDir) := by
  refine Relate.bind (hR.addFiles _ _ _) fun _ _ _ => ?_
  refine Relate.bind (hR.addNodes _ _ _) fun _ _ _ => ?_
  exact hR.addFiles _ _ _

theorem addObjectFiles (oneThreadDir oneTaskDir oneFdDir : ℕ) :
    Relate R Eq (addObjectFiles oneThreadDir oneTaskDir oneFdDir)
      (addObjectFiles oneThreadDir oneTaskDir oneFdDir) := by
  refine Relate.bind (hR.addFiles _ _ _) fun _ _ _ => ?_
  refine Relate.bind (hR.addFiles _ _ _) fun _ _ _ => ?_
  exact hR.addFiles _ _ _

/-- All the calls after the one that adds the root. -/
theorem belowRoot : ∃ below : ℕ → StateM SnodeTree Unit,
    procfsStructureInitCalls =
      (ProcFS.addDirectory none "/" .root procfsRootNodeBaseId 0 >>= below) ∧
    ∀ rootNode, Relate R Eq (below rootNode) (below rootNode) := by
  refine ⟨_, rfl, fun rootNode => ?_⟩
  refine hR.addDirectory _ _ _ _ fun procByNameDir => ?_
  refine Relate.bind (hR.addNodes _ _ _) fun _ _ _ => ?_
  refine Relate.bind (hR.addRootDirectories _) fun _ _ _ => ?_
  refine Relate.bind (hR.addNetDirectory _) fun _ _ _ => ?_
  refine hR.addDirectory _ _ _ _ fun _ => ?_
  refine hR.addDirectory _ _ _ _ fun oneProcDir => ?_
  refine hR.addDirectory _ _ _ _ fun fdDir => ?_
  refine hR.addDirectory _ _ _ _ fun oneFdDir => ?_
  refine hR.addDirectory _ _ _ _ fun threadsDir => ?_
  refine hR.addDirectory _ _ _ _ fun oneThreadDir => ?_
  refine hR.addDirectory _ _ _ _ fun taskDir => ?_
  refine hR.addDirectory _ _ _ _ fun oneTaskDir => ?_
  refine Relate.bind (hR.addProcessFiles _) fun _ _ _ => ?_
  exact hR.addObjectFiles _ _ _

/-- What holds once the root was added holds of the finished trees. -/
theorem init (build build' : ℕ) (next next' : UInt16)
    (hroot : R (rootAdded build next) (rootAdded build' next')) :
    R (procfsStructureInit build next) (procfsStructureInit build' next') := by
  obtain ⟨below, hcalls, hbelow⟩ := hR.belowRoot
  unfold procfsStructureInit
  rw [hcalls]
  exact (hbelow 0 _ _ hroot).2

end KeptByCalls

/-- What holds of one tree once the root was added, and is kept by each added node,
holds of the finished tree. -/
theorem procfsStructureInit_induction {P : SnodeTree → Prop} (build : ℕ) (next : UInt16)
    (hroot : P (rootAdded build next))
    (hadd : ∀ parent name type flags t, P t → P ((addNextNode parent name type flags).run t).2) :
    P (procfsStructureInit build next) := by
  have hkept : KeptByCalls fun t t' => t = t' ∧ P t := by
    refine ⟨fun parent name type flags t t' ht => ?_⟩
    rcases ht with ⟨rfl, ht⟩
    exact ⟨rfl, rfl, hadd parent name type flags t ht⟩
  exact (hkept.init build build next next ⟨rfl, hroot⟩).2

/-! ## The shape does not depend on the ids -/

theorem sameShape_kept : KeptByCalls SameShape where
  add := by
    intro parent name type flags t t' h
    rw [addNextNode_run, addNextNode_run]
    refine ⟨h.length_eq, ?_⟩
    have hnodes : t.nodes.map Pfssnode.shape = t'.nodes.map Pfssnode.shape := h
    simp only [SameShape, SnodeTree.shape, List.map_append, hnodes, List.map_cons, List.map_nil,
      nextNode, Pfssnode.shape, h.length_eq, h.inheritedFlags_eq parent]

/-- Every building of the tree gives the same shape. -/
theorem procfsStructureInit_sameShape (build : ℕ) (next : UInt16) :
    SameShape (procfsStructureInit build next) (procfsStructureInit 0 2) := by
  apply sameShape_kept.init build 0 next 2
  rfl

/-- The root of every built tree, with the base id reserved for it. -/
theorem procfsStructureRootNode_eq (build : ℕ) (next : UInt16) :
    procfsStructureRootNode (procfsStructureInit build next) =
      some ⟨build, 0, .root, cstr "/", procfsRootNodeBaseId, 0, none⟩ := by
  have hroot : (rootAdded build next).nodes[0]? =
      some ⟨build, 0, .root, cstr "/", procfsRootNodeBaseId, 0 ||| 0, none⟩ := rfl
  refine @procfsStructureInit_induction (fun t => t.nodes[0]? = some _) build next hroot ?_
  intro parent name type flags t ht
  -- the root is there already, and nodes are added at the end
  have hpos : 0 < t.nodes.length := (List.getElem?_eq_some_iff.mp ht).1
  exact (List.getElem?_append_left hpos).trans ht

/-- The nodes are numbered in the order in which they were added: their addresses
from the root on, their base ids by the counter from the node after the root on. -/
structure InOrder (next : UInt16) (t : SnodeTree) : Prop where
  pos : 0 < t.nodes.length
  counter : t.nextNodeId = next + UInt16.ofNat (t.nodes.length - 1)
  addr : ∀ (i : ℕ) (s : Pfssnode), t.nodes[i]? = some s → s.psnAddr = i
  base : ∀ (i : ℕ) (s : Pfssnode), t.nodes[i]? = some s → i ≠ 0 →
    s.psnBaseNodeId = next + UInt16.ofNat (i - 1)

theorem InOrder.add {next : UInt16} {t : SnodeTree} (h : InOrder next t) (parent : Option ℕ)
    (name : String) (type : PfsType) (flags : UInt16) :
    InOrder next ((addNextNode parent name type flags).run t).2 := by
  have hpos := h.pos
  rw [addNextNode_run]
  -- what is found at an address was there before, or is the new node at the end
  have hget : ∀ (i : ℕ) s, (t.nodes ++ [nextNode t parent name type flags])[i]? = some s →
      t.nodes[i]? = some s ∨ i = t.nodes.length ∧ s = nextNode t parent name type flags := by
    intro i s hs
    rw [List.getElem?_append] at hs
    split at hs
    · exact Or.inl hs
    · rcases List.getElem?_eq_some_iff.mp hs with ⟨hi, rfl⟩
      rw [List.length_singleton] at hi
      exact Or.inr ⟨by omega, by simp⟩
  refine ⟨by simp, ?_, ?_, ?_⟩
  · have hcount : t.nodes.length + 1 - 1 = t.nodes.length - 1 + 1 := by omega
    simp only [List.length_append, List.length_singleton, hcount, h.counter, UInt16.ofNat_add,
      UInt16.add_assoc]
    rfl
  · intro i s hs
    rcases hget i s hs with hs | ⟨rfl, rfl⟩
    · exact h.addr i s hs
    · rfl
  · intro i s hs hi
    rcases hget i s hs with hs | ⟨rfl, rfl⟩
    · exact h.base i s hs hi
    · exact h.counter

/-- So it is in every built tree. -/
theorem procfsStructureInit_inOrder (build : ℕ) (next : UInt16) :
    InOrder next (procfsStructureInit build next) := by
  refine procfsStructureInit_induction build next ?_
    fun parent name type flags t ht => ht.add parent name type flags
  -- the root and its two dot entries
  have hone : UInt16.ofNat 0 = 0 ∧ UInt16.ofNat 1 = 1 ∧ UInt16.ofNat 2 = 1 + 1 := by decide
  have hlen : (rootAdded build next).nodes.length = 3 := rfl
  refine ⟨by omega, ?_, ?_, ?_⟩
  · have hcounter : (rootAdded build next).nextNodeId = next + 1 + 1 := rfl
    rw [hcounter, hlen, hone.2.2, UInt16.add_assoc]
  · intro i s hget
    match i with
    | 0 | 1 | 2 =>
      cases hget
      rfl
    | i + 3 => cases hget
  · intro i s hget hi
    match i with
    | 0 => exact absurd rfl hi
    | 1 =>
      cases hget
      exact (UInt16.add_zero next).symm
    | 2 =>
      cases hget
      rfl
    | i + 3 => cases hget

variable {next : UInt16} {build : ℕ} {s : Pfssnode}

/-- What holds of all nodes of one tree, as far as their shapes go, holds in every built tree. -/
theorem forall_shape {P : Pfssnode → Prop} (hall : ∀ s ∈ (procfsStructureInit 0 2).shape, P s)
    (hs : s ∈ (procfsStructureInit build next).nodes) : P s.shape := by
  have hsame : (procfsStructureInit build next).shape = (procfsStructureInit 0 2).shape :=
    procfsStructureInit_sameShape build next
  rw [← hsame] at hall
  exact hall s.shape (List.mem_map_of_mem hs)

/-- A structure node is found at its address. -/
theorem node?_psnAddr (hs : s ∈ (procfsStructureInit build next).nodes) :
    (procfsStructureInit build next).node? s.psnAddr = some s := by
  obtain ⟨i, hget⟩ := List.mem_iff_getElem?.mp hs
  rw [SnodeTree.node?, (procfsStructureInit_inOrder build next).addr i s hget, hget]

/-- Every built tree has as many nodes. -/
theorem length_nodes (build : ℕ) (next : UInt16) :
    (procfsStructureInit build next).nodes.length = 175 := by
  rw [(procfsStructureInit_sameShape build next).length_eq]
  decide +kernel

theorem psnAddr_lt (hs : s ∈ (procfsStructureInit build next).nodes) : s.psnAddr < 175 := by
  rw [← length_nodes build next]
  exact (List.getElem?_eq_some_iff.mp (node?_psnAddr hs)).1

/-- The place of a node other than the root says how far the counter was when it got its
base id. -/
theorem psnBaseNodeId_eq (hs : s ∈ (procfsStructureInit build next).nodes) (hne : s.psnAddr ≠ 0) :
    s.psnBaseNodeId = next + UInt16.ofNat (s.psnAddr - 1) :=
  (procfsStructureInit_inOrder build next).base _ s (node?_psnAddr hs) hne

/-- So every building moves the counter by the same amount. -/
theorem procfsStructureInit_nextNodeId (build : ℕ) (next : UInt16) :
    (procfsStructureInit build next).nextNodeId = next + 174 := by
  rw [(procfsStructureInit_inOrder build next).counter, length_nodes]
  rfl

/-- Only the root has no place behind the root. -/
theorem eq_root_of_psnAddr (hs : s ∈ (procfsStructureInit build next).nodes) (h : s.psnAddr = 0) :
    s = ⟨build, 0, .root, cstr "/", procfsRootNodeBaseId, 0, none⟩ := by
  have hnode := node?_psnAddr hs
  have hroot := procfsStructureRootNode_eq build next
  rw [h] at hnode
  rw [procfsStructureRootNode, hnode] at hroot
  exact Option.some.inj hroot

/-- A tree has far fewer nodes than there are ids, so two nodes other than the root
never share a base id. The root is apart: its id is fixed, and the counter passes it
when it wraps around. -/
theorem eq_of_psnBaseNodeId {s s' : Pfssnode} (hs : s ∈ (procfsStructureInit build next).nodes)
    (hs' : s' ∈ (procfsStructureInit build next).nodes) (hne : s.psnAddr ≠ 0)
    (hne' : s'.psnAddr ≠ 0) (h : s.psnBaseNodeId = s'.psnBaseNodeId) : s = s' := by
  have hnode := node?_psnAddr hs
  have hlt := psnAddr_lt hs
  have hlt' := psnAddr_lt hs'
  rw [psnBaseNodeId_eq hs hne, psnBaseNodeId_eq hs' hne', UInt16.add_right_inj] at h
  have heq : s.psnAddr = s'.psnAddr := by
    have hsize : UInt16.size = 65536 := rfl
    have hnat := congrArg UInt16.toNat h
    rw [UInt16.toNat_ofNat_of_lt' (by omega), UInt16.toNat_ofNat_of_lt' (by omega)] at hnat
    omega
  rw [heq, node?_psnAddr hs'] at hnode
  exact (Option.some.inj hnode).symm

/-- Every built tree has a root. -/
theorem procfsStructureRootNode_ne_none (build : ℕ) (next : UInt16) :
    procfsStructureRootNode (procfsStructureInit build next) ≠ none := by
  rw [procfsStructureRootNode_eq]
  simp

/-! ## Directories -/

/-- The types whose entry stands for many: the visible processes, the threads
and the descriptors. -/
def PfsType.isListing : PfsType → Bool
  | .proc | .procnamedir | .thread | .fd => true
  | _ => false

theorem PfsType.isListing_iff {type : PfsType} :
    type.isListing = true ↔ (type = .proc ∨ type = .procnamedir) ∨ type = .thread ∨ type = .fd := by
  cases type <;> decide

/-- What lookup and readdir rely on for the children of a node: only the last one
stands for many entries, none is a root, none has a name that starts with a
digit or was truncated, and a sysctl node has no static children. -/
def childrenOk (s : Pfssnode) (children : List Pfssnode) : Bool :=
  children.dropLast.all (fun c => !c.psnNodeType.isListing) &&
  children.all (fun c => c.psnNodeType != .root && !c.psnName.head?.any isDigit &&
    decide (c.psnName.length + 1 < maxStructNodeNameLen)) &&
  (s.psnNodeType != .sysctl || children.isEmpty)

theorem childrenOk_iff {children : List Pfssnode} :
    childrenOk s children = true ↔
      (∀ c ∈ children.dropLast, c.psnNodeType.isListing = false) ∧
      (∀ c ∈ children, c.psnNodeType ≠ .root ∧ c.psnName.head?.any isDigit = false ∧
        c.psnName.length + 1 < maxStructNodeNameLen) ∧
      (s.psnNodeType = .sysctl → children = []) := by
  simp [childrenOk, and_assoc, imp_iff_not_or]

theorem childrenOk_shape (s : Pfssnode) (children : List Pfssnode) :
    childrenOk s.shape (children.map Pfssnode.shape) = childrenOk s children := by
  simp only [childrenOk, List.dropLast_eq_take, List.length_map, ← List.map_take, List.all_map,
    List.isEmpty_map]
  rfl

theorem SnodeTree.children_shape (t : SnodeTree) (s : Pfssnode) :
    (t.children s).map Pfssnode.shape = t.shape.filter fun c => c.psnParent == some s.psnAddr := by
  rw [SnodeTree.shape, List.filter_map]
  rfl

/-- The types that nodes are added below. -/
def PfsType.isParent : PfsType → Bool
  | .root | .proc | .procnamedir | .thread | .fd | .dir => true
  | _ => false

/-- The types whose node ids carry an object id. -/
def PfsType.hasObject : PfsType → Bool
  | .thread | .fd | .sysctl => true
  | _ => false

/-- The types of the entries `.` and `..`. -/
def PfsType.isDot : PfsType → Bool
  | .dirthis | .dirparent => true
  | _ => false

/-- What the id functions rely on for a child `c` of a structure node `s`. -/
structure Site (s c : Pfssnode) : Prop where
  parent_noDot : s.psnNodeType.isDot = false
  dot_name : c.psnNodeType.isDot = true → c.psnName = cstr "." ∨ c.psnName = cstr ".."
  process : c.psnFlags &&& psnFlagProcess = 0 → s.psnFlags &&& psnFlagProcess = 0
  -- directories lie in directories that have neither object id nor thread
  dir_parent : c.psnNodeType.isDot = false → procfsAllocvp c.psnNodeType = .VDIR →
    s.psnNodeType.hasObject = false ∧ s.psnFlags &&& psnFlagThread = 0
  -- processes are entered from outside, threads and descriptors from inside
  proc_flags : c.psnNodeType = .proc ∨ c.psnNodeType = .procnamedir →
    c.psnFlags &&& psnFlagProcess ≠ 0 ∧ s.psnFlags &&& psnFlagProcess = 0 ∧
    s.psnNodeType.hasObject = false
  object_flags : c.psnNodeType = .thread ∨ c.psnNodeType = .fd →
    s.psnFlags &&& psnFlagProcess ≠ 0
  -- the entries that stand for many are called `__…__`
  listing_name : c.psnNodeType.isListing = true → c.psnName.head? = some 95
  name_head : c.psnName.head?.any (· != 45) = true

instance (s c : Pfssnode) : Decidable (Site s c) :=
  decidable_of_iff
    (s.psnNodeType.isDot = false ∧
      (c.psnNodeType.isDot = true → c.psnName = cstr "." ∨ c.psnName = cstr "..") ∧
      (c.psnFlags &&& psnFlagProcess = 0 → s.psnFlags &&& psnFlagProcess = 0) ∧
      (c.psnNodeType.isDot = false → procfsAllocvp c.psnNodeType = .VDIR →
        s.psnNodeType.hasObject = false ∧ s.psnFlags &&& psnFlagThread = 0) ∧
      (c.psnNodeType = .proc ∨ c.psnNodeType = .procnamedir →
        c.psnFlags &&& psnFlagProcess ≠ 0 ∧ s.psnFlags &&& psnFlagProcess = 0 ∧
        s.psnNodeType.hasObject = false) ∧
      (c.psnNodeType = .thread ∨ c.psnNodeType = .fd → s.psnFlags &&& psnFlagProcess ≠ 0) ∧
      (c.psnNodeType.isListing = true → c.psnName.head? = some 95) ∧
      c.psnName.head?.any (· != 45) = true)
    ⟨fun ⟨h1, h2, h3, h4, h5, h6, h7, h8⟩ => ⟨h1, h2, h3, h4, h5, h6, h7, h8⟩,
      fun ⟨h1, h2, h3, h4, h5, h6, h7, h8⟩ => ⟨h1, h2, h3, h4, h5, h6, h7, h8⟩⟩

/-- All that is checked of a node and its children. -/
structure LayoutOk (s : Pfssnode) (children : List Pfssnode) : Prop where
  ok : childrenOk s children = true
  names_nodup : (children.map Pfssnode.psnName).Nodup
  site : ∀ c ∈ children, Site s c
  root_lists : s.psnNodeType = .root → ∃ c ∈ children, c.psnNodeType = .proc

instance (s : Pfssnode) (children : List Pfssnode) : Decidable (LayoutOk s children) :=
  decidable_of_iff
    (childrenOk s children = true ∧ (children.map Pfssnode.psnName).Nodup ∧
      (∀ c ∈ children, Site s c) ∧
      (s.psnNodeType = .root → ∃ c ∈ children, c.psnNodeType = .proc))
    ⟨fun ⟨h1, h2, h3, h4⟩ => ⟨h1, h2, h3, h4⟩, fun ⟨h1, h2, h3, h4⟩ => ⟨h1, h2, h3, h4⟩⟩

theorem LayoutOk.of_shape {children : List Pfssnode}
    (h : LayoutOk s.shape (children.map Pfssnode.shape)) : LayoutOk s children := by
  have hok := h.ok
  have hnames := h.names_nodup
  rw [childrenOk_shape] at hok
  rw [List.map_map] at hnames
  refine ⟨hok, hnames, fun c hc => ?_, fun htype => ?_⟩
  · have hsite := h.site c.shape (List.mem_map_of_mem hc)
    exact ⟨hsite.1, hsite.2, hsite.3, hsite.4, hsite.5, hsite.6, hsite.7, hsite.8⟩
  · obtain ⟨c', hc', hproc⟩ := h.root_lists htype
    obtain ⟨c, hc, rfl⟩ := List.mem_map.mp hc'
    exact ⟨c, hc, hproc⟩

/-- The children of every node of a built tree are as lookup, readdir and the id
functions expect them. -/
theorem procfsStructureInit_layoutOk (hs : s ∈ (procfsStructureInit build next).nodes) :
    LayoutOk s ((procfsStructureInit build next).children s) := by
  have hsame : (procfsStructureInit build next).shape = (procfsStructureInit 0 2).shape :=
    procfsStructureInit_sameShape build next
  -- only the nodes that can have children need to be looked at
  by_cases hparent : s.psnNodeType.isParent = true
  · have hall : ∀ s ∈ (procfsStructureInit 0 2).shape.filter (fun s => s.psnNodeType.isParent),
        LayoutOk s
          ((procfsStructureInit 0 2).shape.filter fun c => c.psnParent == some s.psnAddr) := by
      decide +kernel
    apply LayoutOk.of_shape
    rw [SnodeTree.children_shape]
    rw [← hsame] at hall
    exact hall s.shape (List.mem_filter.mpr ⟨List.mem_map_of_mem hs, hparent⟩)
  · have hall : (procfsStructureInit 0 2).shape.all (fun c => c.psnParent.all fun a =>
        ((procfsStructureInit 0 2).shape[a]?).any fun s => s.psnNodeType.isParent) = true := by
      decide +kernel
    have hnil : (procfsStructureInit build next).children s = [] := by
      rw [List.eq_nil_iff_forall_not_mem]
      intro c hc
      obtain ⟨hmem, hpsn⟩ := List.mem_filter.mp hc
      rw [← hsame, List.all_eq_true] at hall
      have hany := hall c.shape (List.mem_map_of_mem hmem)
      have hget := node?_psnAddr hs
      simp only [SnodeTree.node?] at hget
      have hpsn' : c.shape.psnParent = some s.psnAddr := beq_iff_eq.mp hpsn
      rw [hpsn'] at hany
      simp only [Option.all_some, SnodeTree.shape, List.getElem?_map, hget] at hany
      exact hparent hany
    rw [hnil]
    refine ⟨by simp [childrenOk], List.nodup_nil, by simp, fun htype => ?_⟩
    rw [htype] at hparent
    exact absurd rfl hparent

/-- The same of a tree that is known to be a built one. -/
theorem layoutOk_of_mem {t : SnodeTree} (htree : t = procfsStructureInit build next)
    (hs : s ∈ t.nodes) : LayoutOk s (t.children s) := by
  rw [htree] at hs ⊢
  exact procfsStructureInit_layoutOk hs

namespace LayoutOk

variable {s c : Pfssnode} {children : List Pfssnode}

variable (h : LayoutOk s children) (hc : c ∈ children)
include h hc

theorem ne_root : c.psnNodeType ≠ .root :=
  ((childrenOk_iff.mp h.ok).2.1 c hc).1

theorem name_length : c.psnName.length + 1 < maxStructNodeNameLen :=
  ((childrenOk_iff.mp h.ok).2.1 c hc).2.2

theorem name_ne_nil : c.psnName ≠ [] := by
  intro hnil
  have hhead := (h.site c hc).name_head
  rw [hnil] at hhead
  cases hhead

/-- `/proc/sys` has no children in the tree. -/
theorem ne_sysctl : s.psnNodeType ≠ .sysctl := by
  intro hsysctl
  rw [(childrenOk_iff.mp h.ok).2.2 hsysctl] at hc
  cases hc

end LayoutOk

/-- `/proc/sys` lies outside the process directories. -/
theorem sysctl_unflagged (hs : s ∈ (procfsStructureInit build next).nodes)
    (htype : s.psnNodeType = .sysctl) : s.psnFlags &&& psnFlagProcess = 0 := by
  have hall : ∀ s ∈ (procfsStructureInit 0 2).shape, s.psnNodeType = .sysctl →
      s.psnFlags &&& psnFlagProcess = 0 := by decide +kernel
  exact forall_shape hall hs htype

/-- The children of every node of a built tree are as lookup and readdir expect
them. -/
theorem procfsStructureInit_childrenOk (hs : s ∈ (procfsStructureInit build next).nodes) :
    childrenOk s ((procfsStructureInit build next).children s) = true :=
  (procfsStructureInit_layoutOk hs).ok

/-- An entry that stands for many is the last child of its directory. -/
theorem children_listing {dir s : Pfssnode} (hdir : dir ∈ (procfsStructureInit build next).nodes)
    (hs : s ∈ (procfsStructureInit build next).children dir)
    (hlisting : s.psnNodeType.isListing = true) :
    ∃ skipped, (procfsStructureInit build next).children dir = skipped ++ [s] ∧
      ∀ s' ∈ skipped, s'.psnNodeType.isListing = false := by
  obtain ⟨hstatic, -, -⟩ := childrenOk_iff.mp (procfsStructureInit_childrenOk hdir)
  generalize (procfsStructureInit build next).children dir = children at hstatic hs
  have hne : children ≠ [] := List.ne_nil_of_mem hs
  have hsplit : children = children.dropLast ++ [children.getLast hne] :=
    (List.dropLast_append_getLast hne).symm
  rw [hsplit, List.mem_append, List.mem_singleton] at hs
  rcases hs with hs | hs
  · exact absurd hlisting (by simp [hstatic s hs])
  · refine ⟨children.dropLast, ?_, hstatic⟩
    rw [hs]
    exact hsplit

end ProcFS
