import ProcFS.Layout
import ProcFS.StructureHeap

/-!
# ProcFS.StructureHeap.Build — the trees that are built and released

The arena of `ProcFS.Structure` is what memory holds after the same calls of
`add_node` (`Represents`). All nodes of `procfs_structure_init` are in the tree
of its root.

* `Built.tidy`: memory holds a forest, whatever was added.
* `releaseNode_frees_tree`: `release_node` of a root gives back its tree.
* `procfsStructureInit_inMemory`: the tree of `procfs_structure_init` in memory.
* `procfsStructureInit_released`: `procfs_structure_free` gives back all of it.
-/

namespace ProcFS

open Lib.Tailq

namespace SnodeHeap

/-! ## Building -/

/-- The flags a new node inherits from its parent. -/
def inheritedFlags (h : SnodeHeap) (parent : Option ℕ) : UInt16 :=
  match parent.bind h.node with
  | some p => p.psnFlags &&& (psnFlagProcess ||| psnFlagThread)
  | none => 0

/-- The new node `a` is the last child of its parent. Everything else is as it was. -/
structure Added (h h' : SnodeHeap) (a : ℕ) (new : Pfssnode) : Prop where
  node : h'.node = Function.update h.node a (some new)
  freed : h'.freed = h.freed
  queue : IsQueue h' a []
  parent : ∀ p ∈ new.psnParent, ∀ xs, IsQueue h p xs → IsQueue h' p (xs ++ [a])
  head : ∀ x, x ≠ a → x ∉ new.psnParent → h.SameHead h' x
  entry : ∀ x, x ≠ a → (∀ p ∈ new.psnParent, parentOf h x ≠ some (some p)) → h.SameEntry h' x

section Adding

variable {build a : ℕ} {name : String} {type : PfsType} {nodeId flags : UInt16} {h : SnodeHeap}

theorem addNode_root (ha : ¬ h.Live a) :
    ∃ h', addNode build a none name type nodeId flags h = some h' ∧
      Added h h' a (newNode build a none name type nodeId flags) := by
  obtain ⟨h₁, h', halloc, hinit, hqueue, hnode, hfreed, hhead, hentry⟩ :=
    alloc_init_spec ha (newNode build a none name type nodeId flags)
  refine ⟨h', ?_, ⟨hnode, hfreed, hqueue, fun _ hp => (nomatch hp), fun x hx _ => hhead x hx,
    fun x hx _ => hentry x hx⟩⟩
  rw [addNode, halloc]
  simp only [Option.bind_eq_bind, Option.bind_some, hinit]
  rfl

theorem addNode_child {p : ℕ} {xs : List ℕ} (ha : ¬ h.Live a) (hqueue : IsQueue h p xs)
    (hxs : ∀ x ∈ xs, parentOf h x = some (some p)) :
    ∃ h', addNode build a (some p) name type nodeId flags h = some h' ∧
      Added h h' a
        (newNode build a (some p) name type nodeId (flags ||| inheritedFlags h (some p))) := by
  have hpa : p ≠ a := fun hpa => ha (hpa ▸ hqueue.live)
  have hxa : ∀ x ∈ xs, x ≠ a := by
    rintro x hx rfl
    exact ha (live_of_parentOf (hxs x hx))
  obtain ⟨dir, hdir⟩ := Option.isSome_iff_exists.mp hqueue.live
  -- the new node
  obtain ⟨h₁, h₂, halloc, hinit, hqueue₂, hnode₂, hfreed₂, hhead₂, hentry₂⟩ :=
    alloc_init_spec ha (newNode build a (some p) name type nodeId flags)
  have hold : ∀ x, x ≠ a → h₂.node x = h.node x := by
    intro x hx
    rw [hnode₂, Function.update_of_ne hx]
  have hparent₂ : IsQueue h₂ p xs :=
    hqueue.congr (fun hlive => hlive.of_node (hold p hpa)) (hhead₂ p hpa) fun x hx =>
      ⟨fun hlive => hlive.of_node (hold x (hxa x hx)), hentry₂ x (hxa x hx)⟩
  -- the queue of its parent
  obtain ⟨h₃, hinsert, hparent₃, hnode₃, hfreed₃, hhead₃, hentry₃⟩ :=
    insertTail_spec hparent₂ hqueue₂.live fun hmem => hxa a hmem rfl
  have hdir₃ : h₃.node p = some dir := by rw [hnode₃, hold p hpa, hdir]
  have hnew₃ : h₃.node a = some (newNode build a (some p) name type nodeId flags) := by
    rw [hnode₃, hnode₂, Function.update_self]
  have hqueue₃ : IsQueue h₃ a [] :=
    hqueue₂.congr (fun hlive => hlive.of_node (congrFun hnode₃ a)) (hhead₃ a (Ne.symm hpa))
      fun _ hx => (nomatch hx)
  -- its flags
  obtain ⟨h₄, hmodify, hnode₄, hfreed₄, hsame₄⟩ := modify_spec hnew₃ fun node =>
    { node with
      psnFlags := node.psnFlags ||| (dir.psnFlags &&& (psnFlagProcess ||| psnFlagThread)) }
  refine ⟨h₄, ?_, ⟨?_, ?_, ?_, ?_, ?_, ?_⟩⟩
  · rw [addNode, halloc]
    simp only [Option.bind_eq_bind, Option.bind_some, hinit, hinsert, hdir₃]
    exact hmodify
  · rw [hnode₄, hnode₃, hnode₂, Function.update_idem, inheritedFlags, Option.bind_some, hdir]
    rfl
  · rw [hfreed₄, hfreed₃, hfreed₂]
  · exact hqueue₃.congr (hsame₄ a).1 (hsame₄ a).2.1 fun _ hx => (nomatch hx)
  · rintro q ⟨⟩ ys hys
    obtain rfl := hqueue.unique hys
    exact hparent₃.congr (hsame₄ p).1 (hsame₄ p).2.1 fun x _ => ⟨(hsame₄ x).1, (hsame₄ x).2.2⟩
  · intro x hx hxp
    have hxp : x ≠ p := fun heq => hxp (congrArg some heq.symm)
    exact ((hhead₂ x hx).trans (hhead₃ x hxp)).trans (hsame₄ x).2.1
  · intro x hx hpar
    have hmem : x ∉ xs := fun hmem => hpar p rfl (hxs x hmem)
    exact ((hentry₂ x hx).trans (hentry₃ x hx hmem)).trans (hsame₄ x).2.2

end Adding

namespace Added

variable {h h' : SnodeHeap} {a : ℕ} {new : Pfssnode} (hadd : Added h h' a new)
include hadd

theorem parentOf_new : parentOf h' a = some new.psnParent := by
  rw [parentOf, hadd.node, Function.update_self, Option.map_some]

theorem node_old {x : ℕ} (hx : x ≠ a) : h'.node x = h.node x := by
  rw [hadd.node, Function.update_of_ne hx]

theorem parentOf_old {x : ℕ} (hx : x ≠ a) : parentOf h' x = parentOf h x := by
  rw [parentOf, hadd.node_old hx, parentOf]

/-- What the forests that `p` is not in need to stay as they are. -/
theorem frame {p x : ℕ} (hp : ∀ q ∈ new.psnParent, q = p) (hxa : x ≠ a) (hxp : x ≠ p) :
    parentOf h' x = parentOf h x ∧ h.SameHead h' x ∧
      (parentOf h x ≠ some (some p) → h.SameEntry h' x) := by
  refine ⟨hadd.parentOf_old hxa, hadd.head x hxa fun hx => hxp (hp x hx), fun hpar => ?_⟩
  refine hadd.entry x hxa fun q hq => ?_
  rw [hp q hq]
  exact hpar

end Added

theorem Holds.snoc {h : SnodeHeap} {par : Option ℕ} {F : Forest} {a : ℕ} (hF : Holds h par F)
    (ha : parentOf h a = some par) (hqueue : IsQueue h a []) : Holds h par (F.snoc a) := by
  induction F with
  | nil => exact ⟨ha, hqueue, trivial, trivial⟩
  | cons b kids rest _ ih => exact ⟨hF.1, hF.2.1, hF.2.2.1, ih hF.2.2.2⟩

/-- A node that is added below `p` is found there in the forest. -/
theorem Holds.insert {h h' : SnodeHeap} {par : Option ℕ} {F : Forest} {p a : ℕ} {new : Pfssnode}
    (hF : Holds h par F) (hadd : Added h h' a new) (hp : new.psnParent = some p)
    (ha : a ∉ F.addrs) (hnd : F.addrs.Nodup) : Holds h' par (F.insert p a) := by
  have hpar : ∀ q ∈ new.psnParent, q = p := fun q hq => Option.some.inj (hq.symm.trans hp)
  induction F generalizing par with
  | nil => trivial
  | cons b kids rest ihk ihr =>
    obtain ⟨hb, hqueue, hkids, hrest⟩ := hF
    obtain ⟨hbmem, hnd⟩ := List.nodup_cons.mp hnd
    obtain ⟨hndk, hndr, -⟩ := List.nodup_append.mp hnd
    simp only [Forest.addrs, List.mem_cons, List.mem_append, not_or] at ha hbmem
    have hb' : parentOf h' b = some par := (hadd.parentOf_old (Ne.symm ha.1)).trans hb
    have hframe : ∀ {G : Forest}, a ∉ G.addrs → p ∉ G.addrs → ∀ x ∈ G.addrs,
        parentOf h' x = parentOf h x ∧ h.SameHead h' x ∧
          (parentOf h x ≠ some (some p) → h.SameEntry h' x) := by
      intro G hGa hGp x hx
      exact hadd.frame hpar (fun hxa => hGa (hxa ▸ hx)) fun hxp => hGp (hxp ▸ hx)
    rw [Forest.insert]
    split_ifs with hbp
    · -- the new node is a child of this one
      subst hbp
      refine ⟨hb', ?_, ?_, hrest.congr hbmem.2 (hframe ha.2.2 hbmem.2)⟩
      · rw [Forest.roots_snoc]
        exact hadd.parent b hp kids.roots hqueue
      · exact (hkids.congr hbmem.1 (hframe ha.2.1 hbmem.1)).snoc (hp ▸ hadd.parentOf_new) hadd.queue
    · refine ⟨hb', ?_, ihk hkids ha.2.1 hndk, ihr hrest ha.2.2 hndr⟩
      rw [Forest.roots_insert]
      have hframeb := hadd.frame hpar (Ne.symm ha.1) hbp
      refine hkids.queue_congr hbp hqueue ⟨hframeb.1, hframeb.2.1⟩ fun x hx => ?_
      have hxa : x ≠ a := fun hxa => ha.2.1 (hxa ▸ hx)
      refine ⟨hadd.parentOf_old hxa, fun hparx => hadd.entry x hxa fun q hq => ?_⟩
      rw [hpar q hq]
      exact hparx

/-- The forest is all that is in memory, and nothing was given back. -/
structure Tidy (h : SnodeHeap) (F : Forest) : Prop where
  holds : Holds h none F
  nodup : F.addrs.Nodup
  live : ∀ a, h.Live a ↔ a ∈ F.addrs
  freed : h.freed = []

namespace Tidy

variable {h h' : SnodeHeap} {F : Forest} {a : ℕ} {new : Pfssnode}

theorem live_added (hF : Tidy h F) (hadd : Added h h' a new) (x : ℕ) :
    h'.Live x ↔ x = a ∨ x ∈ F.addrs := by
  rw [← hF.live, Heap.Live, hadd.node]
  by_cases hx : x = a
  · rw [hx, Function.update_self, Option.isSome_some]
    exact ⟨fun _ => Or.inl rfl, fun _ => rfl⟩
  · rw [Function.update_of_ne hx, or_iff_right hx, Heap.Live]

theorem add_root (hF : Tidy h F) (ha : ¬ h.Live a) (hadd : Added h h' a new)
    (hnew : new.psnParent = none) : Tidy h' (.cons a .nil F) := by
  rw [hF.live] at ha
  refine ⟨⟨hnew ▸ hadd.parentOf_new, hadd.queue, trivial, ?_⟩, List.nodup_cons.mpr ⟨ha, hF.nodup⟩,
    fun x => (hF.live_added hadd x).trans List.mem_cons.symm, hadd.freed.trans hF.freed⟩
  refine hF.holds.congr ha fun x hx => ?_
  have hxa : x ≠ a := fun hxa => ha (hxa ▸ hx)
  exact hadd.frame (fun q hq => nomatch hnew ▸ hq) hxa hxa

theorem add_child {p : ℕ} (hF : Tidy h F) (ha : ¬ h.Live a) (hp : h.Live p)
    (hadd : Added h h' a new) (hnew : new.psnParent = some p) : Tidy h' (F.insert p a) := by
  rw [hF.live] at ha hp
  have hperm := Forest.addrs_insert hp hF.nodup a
  refine ⟨hF.holds.insert hadd hnew ha hF.nodup, ?_, fun x => ?_, hadd.freed.trans hF.freed⟩
  · exact hperm.nodup_iff.mpr (List.nodup_cons.mpr ⟨ha, hF.nodup⟩)
  · rw [hF.live_added hadd, hperm.mem_iff, List.mem_cons]

end Tidy

theorem Built.tidy {h : SnodeHeap} (hbuilt : Built h) : ∃ F, Tidy h F := by
  induction hbuilt with
  | empty =>
    refine ⟨.nil, trivial, List.nodup_nil, fun a => ⟨?_, ?_⟩, rfl⟩
    · exact fun hlive => (nomatch hlive)
    · exact fun hmem => (nomatch hmem)
  | @add h h' build a parent name type nodeId flags _ ha hparent hadd ih =>
    obtain ⟨F, hF⟩ := ih
    cases parent with
    -- a new root is a tree of its own
    | none =>
      obtain ⟨h'', hadd', hadded⟩ := addNode_root ha
      obtain rfl := Option.some.inj (hadd.symm.trans hadd')
      exact ⟨_, hF.add_root ha hadded rfl⟩
    -- its parent is in the forest, so it has a queue
    | some p =>
      have hp := hparent p rfl
      obtain ⟨xs, hqueue, hxs⟩ := hF.holds.queue ((hF.live p).mp hp)
      obtain ⟨h'', hadd', hadded⟩ := addNode_child ha hqueue hxs
      obtain rfl := Option.some.inj (hadd.symm.trans hadd')
      exact ⟨_, hF.add_child ha hp hadded rfl⟩

/-! ## The whole tree -/

section Tree

variable {h : SnodeHeap} {F kids rest : Forest} {root : ℕ}

/-- The tree of a root that is taken from the forest is what is under the root. -/
theorem Tidy.mem_tree_iff (hF : Tidy h F) (hperm : F.addrs.Perm (root :: kids.addrs ++ rest.addrs))
    (hkids : Holds h (some root) kids) (hrest : Holds h none rest) (x : ℕ) :
    x ∈ root :: kids.addrs ↔ Under h root x := by
  constructor
  · intro hx
    rcases List.mem_cons.mp hx with rfl | hx
    · exact Relation.ReflTransGen.refl
    · exact hkids.under hx
  · intro hx
    induction hx using Relation.ReflTransGen.head_induction_on with
    | refl => exact List.mem_cons_self
    | @head x y hpar _ ih =>
      have hmem := hperm.mem_iff.mp ((hF.live x).mp (live_of_parentOf hpar))
      rcases List.mem_append.mp hmem with hmem | hmem
      · exact hmem
      -- a node of another tree is a root, or has its parent in that tree
      rcases hrest.mem_roots_or hmem with hroot | ⟨z, hz, hpar'⟩
      · cases hpar.symm.trans (hrest.parentOf_root x hroot)
      · cases hpar.symm.trans hpar'
        have hnd := hperm.nodup_iff.mp hF.nodup
        exact absurd rfl ((List.nodup_append.mp hnd).2.2 y ih y hz)

/-- `release_node` gives back the tree of a root. -/
theorem Tidy.release (hF : Tidy h F) (hroot : parentOf h root = some none) :
    ∃ xs : List ℕ, xs.Nodup ∧ (∀ x, x ∈ xs ↔ Under h root x) ∧
      ∀ fuel, 2 * xs.length ≤ fuel →
        ∃ h', releaseNode fuel root h = some h' ∧ Released h h' root xs := by
  -- a node without a parent is one of the roots
  have hmem : root ∈ F.roots := by
    have hmem := (hF.live root).mp (live_of_parentOf hroot)
    rcases hF.holds.mem_roots_or hmem with hmem | ⟨y, -, hpar⟩
    · exact hmem
    · cases hroot.symm.trans hpar
  obtain ⟨kids, rest, hperm, hqueue, hkids, hrest⟩ := hF.holds.extract hmem
  have hnd : (root :: kids.addrs).Nodup :=
    (List.nodup_append.mp (hperm.nodup_iff.mp hF.nodup)).1
  -- the children are given back first, so the order is that of `post`
  have hxs : (kids.post ++ [root]).Perm (root :: kids.addrs) :=
    (List.perm_append_singleton root kids.post).trans (kids.post_perm.cons root)
  refine ⟨kids.post ++ [root], hxs.nodup_iff.mpr hnd, fun x => ?_, fun fuel hfuel => ?_⟩
  · rw [hxs.mem_iff]
    exact hF.mem_tree_iff hperm hkids hrest x
  · rw [hxs.length_eq, List.length_cons] at hfuel
    obtain ⟨fuel, rfl⟩ : ∃ f, fuel = f + 1 := ⟨fuel - 1, by omega⟩
    -- each node takes two calls: its own, and the pass of the loop that finds no child left
    have hfuel : 2 * kids.addrs.length < fuel := by omega
    obtain ⟨h', hchildren, hrel⟩ := releaseChildren_spec kids hfuel hqueue hkids hnd
    refine releaseNode_spec hroot (fun _ hp => (nomatch hp)) hchildren hrel fun hmem => ?_
    exact (List.nodup_cons.mp hnd).1 (Forest.mem_post.mp hmem)

/-- For every tree that was built with `add_node`, `release_node` of its root returns, which it only
does if it has no access to a node that was given back. The nodes it gives back are those of the
tree, each of them once, and all other nodes are as they were. -/
theorem releaseNode_frees_tree (hbuilt : Built h) (hroot : parentOf h root = some none) :
    ∃ xs : List ℕ, xs.Nodup ∧ (∀ x, x ∈ xs ↔ Under h root x) ∧
      ∀ fuel, 2 * xs.length ≤ fuel → ∃ h', releaseNode fuel root h = some h' ∧ h'.freed = xs ∧
        (∀ x ∈ xs, h'.node x = none) ∧
        ∀ x, x ∉ xs → h'.node x = h.node x ∧ h.SameEntry h' x ∧ h.SameHead h' x := by
  obtain ⟨F, hF⟩ := hbuilt.tidy
  obtain ⟨xs, hnd, hmem, hrelease⟩ := hF.release hroot
  have hrootmem : root ∈ xs := (hmem root).mpr Relation.ReflTransGen.refl
  refine ⟨xs, hnd, hmem, fun fuel hfuel => ?_⟩
  obtain ⟨h', hreturns, hrel⟩ := hrelease fuel hfuel
  refine ⟨h', hreturns, ?_, hrel.gone, fun x hx => ⟨hrel.node x hx, hrel.entry x hx, ?_⟩⟩
  · rw [hrel.freed, hF.freed, List.nil_append]
  · exact hrel.head x hx fun hxr => hx (hxr ▸ hrootmem)

end Tree

/-- A child can be added to every node that is there. -/
theorem Built.exists_addNode {h : SnodeHeap} (hbuilt : Built h) {a p : ℕ} (ha : ¬ h.Live a)
    (hp : h.Live p) (build : ℕ) (name : String) (type : PfsType) (nodeId flags : UInt16) :
    ∃ h' new, addNode build a (some p) name type nodeId flags h = some h' ∧ Built h' ∧
      Added h h' a new := by
  obtain ⟨F, hF⟩ := hbuilt.tidy
  obtain ⟨xs, hqueue, hxs⟩ := hF.holds.queue ((hF.live p).mp hp)
  obtain ⟨h', hadd, hadded⟩ := addNode_child ha hqueue hxs
  refine ⟨h', _, hadd, Built.add hbuilt ha ?_ hadd, hadded⟩
  rintro q ⟨⟩
  exact hp

def rootOnly : Option SnodeHeap := addNode 0 1 none "/" .root 1 0 Heap.empty

def rootAndChildren : Option SnodeHeap :=
  (rootOnly.bind (addNode 0 2 (some 1) "loadavg" .loadavg 2 0)).bind
    (addNode 0 3 (some 1) "uptime" .uptime 3 0)

example : (rootAndChildren.bind (releaseNode 6 1)).map Heap.freed = some [2, 3, 1] := by
  decide +kernel

theorem built_rootAndChildren :
    ∃ h, rootAndChildren = some h ∧ Built h ∧ parentOf h 1 = some none := by
  -- the root, and then two children below it
  obtain ⟨h₁, hadd₁, hadded₁⟩ := @addNode_root 0 1 "/" .root 1 0 Heap.empty (by decide)
  have hbuilt₁ : Built h₁ := by
    refine Built.add Built.empty (by decide) ?_ hadd₁
    rintro p ⟨⟩
  -- the second and the third address are still free
  have hnew₂ : ¬ h₁.Live 2 := by
    rw [Heap.Live, hadded₁.node]
    decide
  obtain ⟨h₂, new, hadd₂, hbuilt₂, hadded₂⟩ :=
    hbuilt₁.exists_addNode hnew₂ hadded₁.queue.live 0 "loadavg" .loadavg 2 0
  have hnew₃ : ¬ h₂.Live 3 := by
    rw [Heap.Live, hadded₂.node_old (by decide), hadded₁.node]
    decide
  have hroot₂ : parentOf h₂ 1 = some none := by
    rw [hadded₂.parentOf_old (by decide), hadded₁.parentOf_new]
    rfl
  obtain ⟨h₃, _, hadd₃, hbuilt₃, hadded₃⟩ :=
    hbuilt₂.exists_addNode hnew₃ (live_of_parentOf hroot₂) 0 "uptime" .uptime 3 0
  refine ⟨h₃, ?_, hbuilt₃, ?_⟩
  · rw [rootAndChildren, rootOnly, hadd₁, Option.bind_some, hadd₂, Option.bind_some, hadd₃]
  · rw [hadded₃.parentOf_old (by decide), hroot₂]

theorem releaseNode_frees_tree_rootAndChildren :
    ∃ h, rootAndChildren = some h ∧ Built h ∧ parentOf h 1 = some none ∧
      ∃ xs : List ℕ, xs.Nodup ∧ (∀ x, x ∈ xs ↔ Under h 1 x) ∧
        ∀ fuel, 2 * xs.length ≤ fuel → ∃ h', releaseNode fuel 1 h = some h' ∧ h'.freed = xs ∧
          (∀ x ∈ xs, h'.node x = none) ∧
          ∀ x, x ∉ xs → h'.node x = h.node x ∧ h.SameEntry h' x ∧ h.SameHead h' x := by
  obtain ⟨h, heq, hbuilt, hroot⟩ := built_rootAndChildren
  exact ⟨h, heq, hbuilt, hroot, releaseNode_frees_tree hbuilt hroot⟩

/-! ## The arena and the memory -/

/-- The arena has the nodes that are in memory, at their positions, and the children of a node are
the elements of its queue. -/
structure Represents (h : SnodeHeap) (t : SnodeTree) : Prop where
  node : ∀ a, h.node a = t.node? a
  addr : ∀ a s, t.node? a = some s → s.psnAddr = a
  parent : ∀ a s, t.node? a = some s → ∀ p ∈ s.psnParent, p < a
  queue : ∀ a s, t.node? a = some s → IsQueue h a ((t.children s).map Pfssnode.psnAddr)

namespace Represents

variable {h h' : SnodeHeap} {t : SnodeTree} {new : Pfssnode}

theorem child (ht : Represents h t) {a x : ℕ} {s : Pfssnode} (hs : t.node? a = some s)
    (hx : x ∈ (t.children s).map Pfssnode.psnAddr) :
    x < t.nodes.length ∧ parentOf h x = some (some a) := by
  obtain ⟨c, hc, rfl⟩ := List.mem_map.mp hx
  obtain ⟨hmem, hpar⟩ := List.mem_filter.mp hc
  obtain ⟨i, hget⟩ := List.mem_iff_getElem?.mp hmem
  have hi := ht.addr i c hget
  refine ⟨hi ▸ (List.getElem?_eq_some_iff.mp hget).1, ?_⟩
  rw [parentOf, ht.node, hi, SnodeTree.node?, hget, Option.map_some, beq_iff_eq.mp hpar,
    ht.addr a s hs]

theorem children_added (t : SnodeTree) (new s : Pfssnode) (next : UInt16) :
    SnodeTree.children ⟨t.build, t.nodes ++ [new], next⟩ s =
      t.children s ++ if new.psnParent = some s.psnAddr then [new] else [] := by
  rw [SnodeTree.children, List.filter_append, SnodeTree.children]
  congr 1
  by_cases hpar : new.psnParent = some s.psnAddr
  · rw [if_pos hpar]
    exact List.filter_cons_of_pos (beq_iff_eq.mpr hpar)
  · rw [if_neg hpar]
    exact List.filter_cons_of_neg fun heq => hpar (beq_iff_eq.mp heq)

theorem children_new (ht : Represents h t) (haddr : new.psnAddr = t.nodes.length) :
    t.children new = [] := by
  rw [List.eq_nil_iff_forall_not_mem]
  intro c hc
  obtain ⟨hmem, hpar⟩ := List.mem_filter.mp hc
  obtain ⟨i, hget⟩ := List.mem_iff_getElem?.mp hmem
  -- its parent would come behind it
  have hi := (List.getElem?_eq_some_iff.mp hget).1
  have hlt := ht.parent i c hget _ (beq_iff_eq.mp hpar)
  omega

theorem node?_added (t : SnodeTree) (new : Pfssnode) (a : ℕ) :
    (t.nodes ++ [new])[a]? = Function.update t.node? t.nodes.length (some new) a := by
  rcases Nat.lt_trichotomy a t.nodes.length with ha | rfl | ha
  · rw [List.getElem?_append_left ha, Function.update_of_ne ha.ne, SnodeTree.node?]
  · rw [List.getElem?_concat_length, Function.update_self]
  · rw [List.getElem?_append_right ha.le, Function.update_of_ne ha.ne', SnodeTree.node?,
      List.getElem?_eq_none ha.le, List.getElem?_eq_none]
    rw [List.length_singleton]
    omega

theorem node?_added_cases {a : ℕ} {s : Pfssnode} (hs : (t.nodes ++ [new])[a]? = some s) :
    a = t.nodes.length ∧ s = new ∨ a < t.nodes.length ∧ t.node? a = some s := by
  rw [node?_added] at hs
  by_cases ha : a = t.nodes.length
  · rw [ha, Function.update_self] at hs
    exact Or.inl ⟨ha, (Option.some.inj hs).symm⟩
  · rw [Function.update_of_ne ha] at hs
    exact Or.inr ⟨(List.getElem?_eq_some_iff.mp hs).1, hs⟩

/-- The queue of a node that was there before. -/
theorem queue_added (ht : Represents h t) (hadd : Added h h' t.nodes.length new)
    (haddr : new.psnAddr = t.nodes.length) {a : ℕ} {s : Pfssnode} (ha : a < t.nodes.length)
    (hs : t.node? a = some s) :
    IsQueue h' a ((t.children s ++ if new.psnParent = some s.psnAddr then [new] else []).map
      Pfssnode.psnAddr) := by
  have hsa := ht.addr a s hs
  have hqueue := ht.queue a s hs
  split_ifs with hnew
  · rw [List.map_append, List.map_singleton, haddr]
    exact hadd.parent a (hsa ▸ hnew) _ hqueue
  · -- its children have another parent than the new node
    rw [List.append_nil]
    refine hqueue.congr (fun hlive => hlive.of_node (hadd.node_old ha.ne))
      (hadd.head a ha.ne fun hmem => hnew (hsa ▸ hmem)) fun x hx => ?_
    obtain ⟨hlt, hparx⟩ := ht.child hs hx
    refine ⟨fun hlive => hlive.of_node (hadd.node_old hlt.ne), ?_⟩
    refine hadd.entry x hlt.ne fun p hp heq => ?_
    rw [hparx] at heq
    cases heq
    exact hnew (hsa ▸ hp)

/-- The same node is added to both. -/
theorem added (ht : Represents h t) (hadd : Added h h' t.nodes.length new)
    (haddr : new.psnAddr = t.nodes.length) (hpar : ∀ p ∈ new.psnParent, p < t.nodes.length)
    {next : UInt16} : Represents h' ⟨t.build, t.nodes ++ [new], next⟩ := by
  refine ⟨fun a => ?_, fun a s hs => ?_, fun a s hs => ?_, fun a s hs => ?_⟩
  · rw [hadd.node, SnodeTree.node?, node?_added, ← funext ht.node]
  · rcases node?_added_cases hs with ⟨rfl, rfl⟩ | ⟨-, hs⟩
    · exact haddr
    · exact ht.addr a s hs
  · rcases node?_added_cases hs with ⟨rfl, rfl⟩ | ⟨-, hs⟩
    · exact hpar
    · exact ht.parent a s hs
  · rw [children_added]
    rcases node?_added_cases hs with ⟨rfl, rfl⟩ | ⟨ha, hs⟩
    · -- the new node has no children, itself included
      have hself : s.psnParent ≠ some s.psnAddr := by
        intro heq
        have hlt := hpar _ heq
        omega
      rw [ht.children_new haddr, if_neg hself]
      exact hadd.queue
    · exact ht.queue_added hadd haddr ha hs

/-- `add_node` in memory, where `OSMalloc` returns the next position, and in the arena. -/
theorem addNode (ht : Represents h t) {parent : Option ℕ}
    (hparent : ∀ p ∈ parent, p < t.nodes.length) (name : String) (type : PfsType)
    (nodeId flags : UInt16) :
    ∃ h', SnodeHeap.addNode t.build t.nodes.length parent name type nodeId flags h = some h' ∧
      Represents h' (ProcFS.addNode parent name type nodeId flags t).2 := by
  have hnode : h.node t.nodes.length = none := by
    rw [ht.node]
    exact List.getElem?_eq_none (Nat.le_refl _)
  have hlive : ¬ h.Live t.nodes.length := by
    rw [Heap.Live, hnode]
    exact Bool.false_ne_true
  have hflags : inheritedFlags h parent = ProcFS.inheritedFlags t parent := by
    rewrite [inheritedFlags, ProcFS.inheritedFlags, funext ht.node]
    cases parent.bind t.node? with
    | none => rfl
    | some dir => rfl
  -- both kinds of `add_node` add the same record
  suffices hnew : ∃ h', SnodeHeap.addNode t.build t.nodes.length parent name type nodeId flags h =
      some h' ∧ Added h h' t.nodes.length
        (newNode t.build t.nodes.length parent name type nodeId
          (flags ||| ProcFS.inheritedFlags t parent)) by
    obtain ⟨h', hadd, hadded⟩ := hnew
    exact ⟨h', hadd, ht.added hadded rfl hparent⟩
  cases parent with
  | none =>
    -- a root inherits nothing
    have hzero : flags ||| ProcFS.inheritedFlags t none = flags := UInt16.or_zero
    rw [hzero]
    exact addNode_root hlive
  | some p =>
    have hp : t.node? p = some (t.nodes.get ⟨p, hparent p rfl⟩) := List.getElem?_eq_getElem _
    rw [← hflags]
    exact addNode_child hlive (ht.queue p _ hp) fun x hx => (ht.child hp hx).2

theorem empty (build : ℕ) (next : UInt16) : Represents Heap.empty ⟨build, [], next⟩ :=
  ⟨fun _ => rfl, fun _ _ hs => (nomatch hs), fun _ _ hs => (nomatch hs), fun _ _ hs => (nomatch hs)⟩

end Represents

/-- There are calls of `add_node` that leave the arena in memory. -/
def InMemory (t : SnodeTree) : Prop := ∃ h, Built h ∧ Represents h t

theorem InMemory.addNode {t : SnodeTree} (ht : InMemory t) {parent : Option ℕ}
    (hparent : ∀ p ∈ parent, p < t.nodes.length) (name : String) (type : PfsType)
    (nodeId flags : UInt16) : InMemory (ProcFS.addNode parent name type nodeId flags t).2 := by
  obtain ⟨h, hbuilt, hrep⟩ := ht
  obtain ⟨h', hadd, hrep'⟩ := hrep.addNode hparent name type nodeId flags
  have hlive : ∀ a, h.Live a ↔ a < t.nodes.length := by
    intro a
    rw [Heap.Live, hrep.node, SnodeTree.node?, isSome_getElem?]
  refine ⟨h', hbuilt.add ?_ (fun p hp => (hlive p).mpr (hparent p hp)) hadd, hrep'⟩
  rw [hlive]
  exact Nat.lt_irrefl _

theorem InMemory.nextNodeId {t : SnodeTree} (ht : InMemory t) (next : UInt16) :
    InMemory { t with nextNodeId := next } := by
  obtain ⟨h, hbuilt, hrep⟩ := ht
  exact ⟨h, hbuilt, hrep.node, hrep.addr, hrep.parent, hrep.queue⟩

/-- The parent of a node is before it, and only the first node has none. -/
def parentFirst (s : Pfssnode) : Bool :=
  s.psnParent.elim (decide (s.psnAddr = 0)) fun p => decide (p < s.psnAddr)

theorem parentFirst_procfsStructureInit {build : ℕ} {next : UInt16} :
    ∀ s ∈ (procfsStructureInit build next).nodes, parentFirst s = true := by
  have hall : ∀ s ∈ (procfsStructureInit 0 2).shape, parentFirst s = true := by decide +kernel
  exact fun s hs => forall_shape hall hs

theorem rootAdded_inMemory (build : ℕ) (next : UInt16) : InMemory (rootAdded build next) := by
  have hempty : InMemory ⟨build, [], next⟩ := ⟨Heap.empty, Built.empty, Represents.empty build next⟩
  have hroot := @InMemory.addNode _ hempty none (fun _ hp => nomatch hp) "/" .root
    procfsRootNodeBaseId 0
  have hthis := @InMemory.addNode _ (hroot.nextNodeId (next + 1)) (some 0)
    (fun _ hp => Option.some.inj hp ▸ Nat.zero_lt_one) "." .dirthis next 0
  exact @InMemory.addNode _ (hthis.nextNodeId (next + 1 + 1)) (some 0)
    (fun _ hp => Option.some.inj hp ▸ Nat.zero_lt_two) ".." .dirparent (next + 1) 0

/-- The tree of `procfs_structure_init` is in memory, when the calls were made there. -/
theorem procfsStructureInit_inMemory (build : ℕ) (next : UInt16) :
    InMemory (procfsStructureInit build next) := by
  refine @procfsStructureInit_induction
    (fun t => (∀ s ∈ t.nodes, parentFirst s = true) → InMemory t)
    build next (fun _ => rootAdded_inMemory build next) ?_ parentFirst_procfsStructureInit
  intro parent name type flags t ht hall
  have hold := ht fun s hs => hall s (List.mem_append_left _ hs)
  have hnew := hall _ (List.mem_append_right t.nodes List.mem_cons_self)
  refine (hold.nextNodeId (t.nextNodeId + 1)).addNode ?_ name type t.nextNodeId flags
  rintro p rfl
  exact of_decide_eq_true hnew

section Init

variable {build : ℕ} {next : UInt16} {h : SnodeHeap}
  (hrep : Represents h (procfsStructureInit build next))
include hrep

theorem live_iff_lt (x : ℕ) : h.Live x ↔ x < 175 := by
  rw [Heap.Live, hrep.node, SnodeTree.node?, isSome_getElem?, length_nodes]

/-- All nodes of `procfs_structure_init` are under its root. -/
theorem under_root_iff (x : ℕ) : Under h 0 x ↔ x < 175 := by
  constructor
  · intro hx
    rcases Relation.ReflTransGen.cases_head hx with rfl | ⟨y, hpar, -⟩
    · decide
    · exact (live_iff_lt hrep x).mp (live_of_parentOf hpar)
  · induction x using Nat.strong_induction_on with
    | h x ih =>
      intro hx
      -- the parent of a node has a smaller position, and only the root has none
      obtain ⟨s, hs⟩ := Option.isSome_iff_exists.mp ((live_iff_lt hrep x).mpr hx)
      have hget : (procfsStructureInit build next).node? x = some s := hrep.node x ▸ hs
      have hfirst := parentFirst_procfsStructureInit s (List.mem_of_getElem? hget)
      have haddr := hrep.addr x s hget
      have hpar : parentOf h x = some s.psnParent := by rw [parentOf, hs, Option.map_some]
      rw [parentFirst] at hfirst
      cases hp : s.psnParent with
      | none =>
        rw [hp] at hfirst
        have hzero : x = 0 := haddr ▸ of_decide_eq_true hfirst
        rw [hzero]
        exact Relation.ReflTransGen.refl
      | some p =>
        rw [hp] at hfirst hpar
        have hlt : p < x := haddr ▸ of_decide_eq_true hfirst
        exact Relation.ReflTransGen.head hpar (ih p hlt (hlt.trans hx))

end Init

/-- `procfs_structure_free` after `procfs_structure_init`: all nodes are given back, each of them
once. -/
theorem procfsStructureInit_released (build : ℕ) (next : UInt16) :
    ∃ h, Built h ∧ Represents h (procfsStructureInit build next) ∧
      ∀ fuel, 350 ≤ fuel → ∃ h', releaseNode fuel 0 h = some h' ∧
        h'.freed.Perm (List.range 175) ∧ ∀ a, h'.node a = none := by
  obtain ⟨h, hbuilt, hrep⟩ := procfsStructureInit_inMemory build next
  obtain ⟨F, hF⟩ := hbuilt.tidy
  have hroot : parentOf h 0 = some none := by
    rw [parentOf, hrep.node]
    exact congrArg (Option.map Pfssnode.psnParent) (procfsStructureRootNode_eq build next)
  -- the tree of the root is given back
  obtain ⟨xs, hnd, hmem, hrelease⟩ := hF.release hroot
  -- which is all that was built
  have hxs : xs.Perm (List.range 175) := by
    rw [List.perm_ext_iff_of_nodup hnd List.nodup_range]
    intro x
    rw [hmem, under_root_iff hrep, List.mem_range]
  refine ⟨h, hbuilt, hrep, fun fuel hfuel => ?_⟩
  have hlength : xs.length = 175 := hxs.length_eq.trans List.length_range
  obtain ⟨h', hreturns, hrel⟩ := hrelease fuel (by omega)
  refine ⟨h', hreturns, ?_, fun a => ?_⟩
  · rw [hrel.freed, hF.freed, List.nil_append]
    exact hxs
  · -- what is left was not there before either
    by_cases ha : a ∈ xs
    · exact hrel.gone a ha
    · have hdead : ¬ h.Live a := by rwa [live_iff_lt hrep, ← under_root_iff hrep, ← hmem]
      rw [hrel.node a ha]
      exact Option.not_isSome_iff_eq_none.mp hdead

end SnodeHeap

end ProcFS
