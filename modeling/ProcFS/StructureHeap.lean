import Mathlib.Logic.Relation
import ProcFS.Lib.Tailq
import ProcFS.Structure

/-!
# ProcFS.StructureHeap — the structure nodes in memory

`ProcFS.Structure` has the nodes of the layout as an arena, where the children
of a node are found by their parents. Here `add_node` and `release_node` work on
memory: each node has the entry `psn_next` in the queue of its parent, and the
head `psn_children` of a queue of its own.

`release_node` removes a child from the queue of its parent, and calls itself for
the child, which removes it once more. The links of the child are stale by then.
The induction is over the tree below a node, as a forest of siblings: it ends
with all nodes of the tree given back, children first, and every other node as it
was.

* `releaseNode_spec`: a node whose queue can be released can be released.
* `Holds.unlink`: what the removal of the first child leaves.
* `releaseChildren_spec`: the loop gives back the forest below a node.
-/

namespace ProcFS

open Lib.Tailq

/-- The structure nodes in memory, by their address. -/
abbrev SnodeHeap := Heap ℕ Pfssnode

namespace SnodeHeap

/-- The fields that `add_node` sets in a new node. -/
def newNode (build a : ℕ) (parent : Option ℕ) (name : String) (type : PfsType)
    (nodeId flags : UInt16) : Pfssnode where
  psnBuild := build
  psnAddr := a
  psnNodeType := type
  psnName := (cstr name).take (maxStructNodeNameLen - 1)
  psnBaseNodeId := nodeId
  psnFlags := flags
  psnParent := parent

/-- `add_node`, with the memory at `a` from `OSMalloc`. -/
def addNode (build a : ℕ) (parent : Option ℕ) (name : String) (type : PfsType)
    (nodeId flags : UInt16) (h : SnodeHeap) : Option SnodeHeap := do
  let h ← h.alloc a (newNode build a parent name type nodeId flags)
  let h ← h.init a
  match parent with
  | none => return h
  | some p =>
    let h ← h.insertTail p a
    let dir ← h.node p
    h.modify a fun node =>
      { node with
        psnFlags := node.psnFlags ||| (dir.psnFlags &&& (psnFlagProcess ||| psnFlagThread)) }

mutual

/-- `release_node`. The first argument bounds the rounds and the depth. -/
def releaseNode : ℕ → ℕ → SnodeHeap → Option SnodeHeap
  | 0, _, _ => none
  | fuel + 1, snode, h => do
    let node ← h.node snode
    let h ←
      match node.psnParent with
      | some p => h.remove p snode
      | none => some h
    let h ← releaseChildren fuel snode h
    h.free snode

/-- The loop of `release_node`. -/
def releaseChildren : ℕ → ℕ → SnodeHeap → Option SnodeHeap
  | 0, _, _ => none
  | fuel + 1, snode, h => do
    match ← h.first snode with
    | none => return h
    | some child =>
      let h ← h.remove snode child
      let h ← releaseNode fuel child h
      releaseChildren fuel snode h

end

/-- `psn_parent` of an allocated node. -/
def parentOf (h : SnodeHeap) (a : ℕ) : Option (Option ℕ) := (h.node a).map Pfssnode.psnParent

/-- What calls of `add_node` leave in memory: each has memory that was not in use, and a node of an
earlier call as the parent, or none. -/
inductive Built : SnodeHeap → Prop
  | empty : Built Heap.empty
  | add {h h' : SnodeHeap} {build a : ℕ} {parent : Option ℕ} {name : String} {type : PfsType}
      {nodeId flags : UInt16} (hbuilt : Built h) (ha : ¬ h.Live a)
      (hparent : ∀ p ∈ parent, h.Live p)
      (hadd : addNode build a parent name type nodeId flags h = some h') : Built h'

/-- The node `x` is in the tree of `root`. -/
def Under (h : SnodeHeap) (root x : ℕ) : Prop :=
  Relation.ReflTransGen (fun x y => parentOf h x = some (some y)) x root

/-! ## Forests -/

/-- Siblings and the forests below them. -/
inductive Forest where
  | nil
  | cons (a : ℕ) (kids rest : Forest)

namespace Forest

def roots : Forest → List ℕ
  | nil => []
  | cons a _ rest => a :: rest.roots

def addrs : Forest → List ℕ
  | nil => []
  | cons a kids rest => a :: (kids.addrs ++ rest.addrs)

/-- The nodes of a forest, each behind those below it. -/
def post : Forest → List ℕ
  | nil => []
  | cons a kids rest => kids.post ++ a :: rest.post

/-- One more node behind the siblings. -/
def snoc (a : ℕ) : Forest → Forest
  | nil => cons a nil nil
  | cons b kids rest => cons b kids (rest.snoc a)

/-- One more node behind the children of `p`. -/
def insert (p a : ℕ) : Forest → Forest
  | nil => nil
  | cons b kids rest =>
    if b = p then cons b (kids.snoc a) rest else cons b (kids.insert p a) (rest.insert p a)

theorem roots_sublist (F : Forest) : F.roots.Sublist F.addrs := by
  induction F with
  | nil => exact List.Sublist.slnil
  | cons a kids rest _ ih => exact (ih.trans (List.sublist_append_right _ _)).cons_cons a

theorem post_perm (F : Forest) : F.post.Perm F.addrs := by
  induction F with
  | nil => exact List.Perm.nil
  | cons a kids rest ihk ihr =>
    exact List.perm_middle.trans ((ihk.append ihr).cons a)

theorem mem_post {F : Forest} {x : ℕ} : x ∈ F.post ↔ x ∈ F.addrs := (post_perm F).mem_iff

@[simp] theorem roots_snoc (F : Forest) (a : ℕ) : (F.snoc a).roots = F.roots ++ [a] := by
  induction F with
  | nil => rfl
  | cons b kids rest _ ih => exact congrArg (b :: ·) ih

@[simp] theorem addrs_snoc (F : Forest) (a : ℕ) : (F.snoc a).addrs = F.addrs ++ [a] := by
  induction F with
  | nil => rfl
  | cons b kids rest _ ih => rw [snoc, addrs, addrs, ih, List.cons_append, List.append_assoc]

@[simp] theorem roots_insert (F : Forest) (p a : ℕ) : (F.insert p a).roots = F.roots := by
  induction F with
  | nil => rfl
  | cons b kids rest _ ih =>
    rw [insert]
    split_ifs
    · rfl
    · exact congrArg (b :: ·) ih

theorem insert_of_notMem {F : Forest} {p : ℕ} (hp : p ∉ F.addrs) (a : ℕ) : F.insert p a = F := by
  induction F with
  | nil => rfl
  | cons b kids rest ihk ihr =>
    simp only [addrs, List.mem_cons, List.mem_append, not_or] at hp
    rw [insert, if_neg (Ne.symm hp.1), ihk hp.2.1, ihr hp.2.2]

theorem addrs_insert {F : Forest} {p : ℕ} (hp : p ∈ F.addrs) (hnd : F.addrs.Nodup) (a : ℕ) :
    (F.insert p a).addrs.Perm (a :: F.addrs) := by
  induction F with
  | nil => cases hp
  | cons b kids rest ihk ihr =>
    obtain ⟨hb, hnd⟩ := List.nodup_cons.mp hnd
    obtain ⟨hndk, hndr, hdisj⟩ := List.nodup_append.mp hnd
    rw [insert]
    split_ifs with hbp
    · -- the new node comes last among the children of `b`
      rw [addrs, addrs_snoc, List.append_assoc, List.singleton_append]
      exact (List.perm_middle.cons b).trans (List.Perm.swap a b _)
    rcases List.mem_cons.mp hp with rfl | hp
    · exact absurd rfl hbp
    rcases List.mem_append.mp hp with hp | hp
    · -- `p` is below `b`, so it is not in the rest
      have hrest : p ∉ rest.addrs := fun h => hdisj p hp p h rfl
      rw [insert_of_notMem hrest]
      exact (((ihk hp hndk).append_right rest.addrs).cons b).trans (List.Perm.swap a b _)
    · -- or the other way round
      have hkids : p ∉ kids.addrs := fun h => hdisj p h p hp rfl
      rw [insert_of_notMem hkids]
      exact ((((ihr hp hndr).append_left kids.addrs).trans List.perm_middle).cons b).trans
        (List.Perm.swap a b _)

end Forest

/-- The memory holds the nodes of the forest, with these siblings below `par`. -/
def Holds (h : SnodeHeap) : Option ℕ → Forest → Prop
  | _, .nil => True
  | par, .cons a kids rest =>
    parentOf h a = some par ∧ IsQueue h a kids.roots ∧ Holds h (some a) kids ∧ Holds h par rest

variable {h : SnodeHeap} {par : Option ℕ}

theorem live_iff_parentOf {a : ℕ} : h.Live a ↔ (parentOf h a).isSome := by
  rw [Heap.Live, parentOf, Option.isSome_map]

theorem live_of_parentOf {a : ℕ} (hpar : parentOf h a = some par) : h.Live a := by
  rw [live_iff_parentOf, hpar, Option.isSome_some]

namespace Holds

variable {h h' : SnodeHeap} {par : Option ℕ} {F : Forest}

theorem parentOf_root (hF : Holds h par F) : ∀ x ∈ F.roots, parentOf h x = some par := by
  induction F with
  | nil => exact fun _ hx => nomatch hx
  | cons a kids rest _ ih =>
    rintro x (_ | ⟨_, hx⟩)
    · exact hF.1
    · exact ih hF.2.2.2 x hx

/-- A node of the forest is one of the siblings, or its parent is in the forest. -/
theorem mem_roots_or (hF : Holds h par F) {x : ℕ} (hx : x ∈ F.addrs) :
    x ∈ F.roots ∨ ∃ y ∈ F.addrs, parentOf h x = some (some y) := by
  induction F generalizing par with
  | nil => cases hx
  | cons a kids rest ihk ihr =>
    obtain ⟨-, -, hkids, hrest⟩ := hF
    rcases List.mem_cons.mp hx with rfl | hx
    · exact Or.inl List.mem_cons_self
    rcases List.mem_append.mp hx with hx | hx
    · right
      -- the parent of a child is `a`, and deeper down it is found by induction
      rcases ihk hkids hx with hroot | ⟨y, hy, hpar⟩
      · exact ⟨a, List.mem_cons_self, hkids.parentOf_root x hroot⟩
      · exact ⟨y, List.mem_cons_of_mem a (List.mem_append_left rest.addrs hy), hpar⟩
    · rcases ihr hrest hx with hroot | ⟨y, hy, hpar⟩
      · exact Or.inl (List.mem_cons_of_mem a hroot)
      · exact Or.inr ⟨y, List.mem_cons_of_mem a (List.mem_append_right kids.addrs hy), hpar⟩

/-- All nodes below `r` are in its tree. -/
theorem under {r x : ℕ} (hF : Holds h (some r) F) (hx : x ∈ F.addrs) : Under h r x := by
  induction F generalizing r with
  | nil => cases hx
  | cons a kids rest ihk ihr =>
    obtain ⟨ha, -, hkids, hrest⟩ := hF
    rcases List.mem_cons.mp hx with rfl | hx
    · exact Relation.ReflTransGen.single ha
    rcases List.mem_append.mp hx with hx | hx
    · exact Relation.ReflTransGen.tail (ihk hkids hx) ha
    · exact ihr hrest hx

/-- A node of the forest has a queue, and its elements are in the forest. -/
theorem queue (hF : Holds h par F) {p : ℕ} (hp : p ∈ F.addrs) :
    ∃ xs, IsQueue h p xs ∧ ∀ x ∈ xs, parentOf h x = some (some p) := by
  induction F generalizing par with
  | nil => cases hp
  | cons a kids rest ihk ihr =>
    obtain ⟨-, hqueue, hkids, hrest⟩ := hF
    rcases List.mem_cons.mp hp with rfl | hp
    · exact ⟨kids.roots, hqueue, hkids.parentOf_root⟩
    rcases List.mem_append.mp hp with hp | hp
    · exact ihk hkids hp
    · exact ihr hrest hp

/-- The tree of one of the siblings, and what is left without it. -/
theorem extract (hF : Holds h par F) {r : ℕ} (hr : r ∈ F.roots) :
    ∃ kids rest, F.addrs.Perm (r :: kids.addrs ++ rest.addrs) ∧ IsQueue h r kids.roots ∧
      Holds h (some r) kids ∧ Holds h par rest := by
  induction F with
  | nil => cases hr
  | cons a kids rest _ ih =>
    obtain ⟨ha, hqueue, hkids, hrest⟩ := hF
    rcases List.mem_cons.mp hr with rfl | hr
    · exact ⟨kids, rest, List.Perm.refl _, hqueue, hkids, hrest⟩
    -- the tree is one of those behind the first
    obtain ⟨kids', rest', hperm, hqueue', hkids', hrest'⟩ := ih hrest hr
    refine ⟨kids', .cons a kids rest', ?_, hqueue', hkids', ha, hqueue, hkids, hrest'⟩
    refine List.Perm.trans ?_ List.perm_middle.symm
    refine List.Perm.cons a ((hperm.append_left kids.addrs).trans ?_)
    rw [← List.append_assoc, ← List.append_assoc]
    exact List.perm_append_comm.append_right rest'.addrs

/-- The queue of `b` is kept where the heads and parents are, and the entries of all nodes that are
not in the queue of `p`. -/
theorem queue_congr {b p : ℕ} (hbp : b ≠ p) (hF : Holds h (some b) F) (hqueue : IsQueue h b F.roots)
    (hb : parentOf h' b = parentOf h b ∧ h.SameHead h' b)
    (hx : ∀ x ∈ F.addrs, parentOf h' x = parentOf h x ∧
      (parentOf h x ≠ some (some p) → h.SameEntry h' x)) : IsQueue h' b F.roots := by
  have hlive : ∀ {x}, parentOf h' x = parentOf h x → h.Live x → h'.Live x := by
    intro x heq hlive
    rwa [live_iff_parentOf, heq, ← live_iff_parentOf]
  refine hqueue.congr (hlive hb.1) hb.2 fun x hmem => ?_
  have hx := hx x (F.roots_sublist.subset hmem)
  refine ⟨hlive hx.1, hx.2 ?_⟩
  rw [hF.parentOf_root x hmem]
  exact fun heq => hbp (Option.some.inj (Option.some.inj heq))

theorem congr (hF : Holds h par F) {p : ℕ} (hp : p ∉ F.addrs)
    (hx : ∀ x ∈ F.addrs, parentOf h' x = parentOf h x ∧ h.SameHead h' x ∧
      (parentOf h x ≠ some (some p) → h.SameEntry h' x)) : Holds h' par F := by
  induction F generalizing par with
  | nil => trivial
  | cons a kids rest ihk ihr =>
    obtain ⟨ha, hqueue, hkids, hrest⟩ := hF
    simp only [Forest.addrs, List.mem_cons, List.mem_append, not_or] at hp hx
    have hxa := hx a (Or.inl rfl)
    have hxk := fun x hmem => hx x (Or.inr (Or.inl hmem))
    refine ⟨hxa.1.trans ha, ?_, ihk hkids hp.2.1 hxk,
      ihr hrest hp.2.2 fun x hmem => hx x (Or.inr (Or.inr hmem))⟩
    exact queue_congr (Ne.symm hp.1) hkids hqueue ⟨hxa.1, hxa.2.1⟩
      fun x hmem => ⟨(hxk x hmem).1, (hxk x hmem).2.2⟩

end Holds

/-! ## Releasing -/

/-- The nodes `xs` are given back, in this order, and every other node is as it was, apart from the
head of `p`. -/
structure Released (h h' : SnodeHeap) (p : ℕ) (xs : List ℕ) : Prop where
  freed : h'.freed = h.freed ++ xs
  gone : ∀ x ∈ xs, h'.node x = none
  node : ∀ x, x ∉ xs → h'.node x = h.node x
  entry : ∀ x, x ∉ xs → h.SameEntry h' x
  head : ∀ x, x ∉ xs → x ≠ p → h.SameHead h' x

theorem releaseNode_succ {fuel a : ℕ} {h h₁ h₂ : SnodeHeap} (hpar : parentOf h a = some par)
    (hunlink : ∀ p ∈ par, h.remove p a = some h) (hchildren : releaseChildren fuel a h = some h₁)
    (hfree : h₁.free a = some h₂) : releaseNode (fuel + 1) a h = some h₂ := by
  obtain ⟨node, hnode, rfl⟩ := Option.map_eq_some_iff.mp hpar
  rw [releaseNode, hnode]
  cases hp : node.psnParent with
  | none =>
    simp only [Option.bind_eq_bind, Option.bind_some, hp, hchildren, hfree]
  | some p =>
    simp only [Option.bind_eq_bind, Option.bind_some, hp, hunlink p hp, hchildren, hfree]

namespace Released

variable {h h' h'' : SnodeHeap} {p : ℕ} {xs ys : List ℕ}

theorem trans (hxs : Released h h' p xs) (hys : Released h' h'' p ys) :
    Released h h'' p (xs ++ ys) where
  freed := by rw [hys.freed, hxs.freed, List.append_assoc]
  gone := by
    intro x hx
    -- what the second part gives back was there until then
    by_cases hy : x ∈ ys
    · exact hys.gone x hy
    · rw [hys.node x hy]
      exact hxs.gone x ((List.mem_append.mp hx).resolve_right hy)
  node := by
    intro x hx
    rw [List.mem_append, not_or] at hx
    rw [hys.node x hx.2, hxs.node x hx.1]
  entry := by
    intro x hx
    rw [List.mem_append, not_or] at hx
    exact (hxs.entry x hx.1).trans (hys.entry x hx.2)
  head := by
    intro x hx hp
    rw [List.mem_append, not_or] at hx
    exact (hxs.head x hx.1 hp).trans (hys.head x hx.2 hp)

/-- The links of a queue may change before its elements are given back. -/
theorem of_unlinked (hxs : Released h' h'' p xs) (hnode : h'.node = h.node)
    (hfreed : h'.freed = h.freed) (hhead : ∀ x, x ≠ p → h.SameHead h' x)
    (hentry : ∀ x, x ∉ ys → h.SameEntry h' x) (hsub : ys ⊆ xs) : Released h h'' p xs where
  freed := by rw [hxs.freed, hfreed]
  gone := hxs.gone
  node := by
    intro x hx
    rw [hxs.node x hx, hnode]
  entry := fun x hx => (hentry x fun hy => hx (hsub hy)).trans (hxs.entry x hx)
  head := fun x hx hp => (hhead x hp).trans (hxs.head x hx hp)

/-- The queue of a node that is given back needs no exception. -/
theorem of_mem (hxs : Released h h' p xs) (hp : p ∈ xs) (q : ℕ) : Released h h' q xs where
  freed := hxs.freed
  gone := hxs.gone
  node := hxs.node
  entry := hxs.entry
  head := by
    intro x hx _
    exact hxs.head x hx fun hxp => hx (hxp ▸ hp)

theorem free (hxs : Released h h' p xs) (hlive : h.Live p) (hp : p ∉ xs) :
    ∃ h'', h'.free p = some h'' ∧ Released h h'' p (xs ++ [p]) := by
  refine ⟨_, if_pos (hlive.of_node (hxs.node p hp)), hxs.trans
    { freed := rfl
      gone := ?_
      node := ?_
      entry := fun x _ => ⟨rfl, rfl⟩
      head := fun x _ _ => ⟨rfl, rfl⟩ }⟩
  · rintro x hx
    rw [List.mem_singleton.mp hx]
    exact Function.update_self p _ h'.node
  · exact fun x hx => Function.update_of_ne (fun hxp => hx (List.mem_singleton.mpr hxp)) _ h'.node

theorem holds {F : Forest} (hxs : Released h h' p xs) (hF : Holds h par F) (hp : p ∉ F.addrs)
    (hdisj : ∀ x ∈ F.addrs, x ∉ xs) : Holds h' par F := by
  refine hF.congr hp fun x hx => ?_
  have hx' := hdisj x hx
  refine ⟨by rw [parentOf, hxs.node x hx', parentOf], hxs.head x hx' ?_, fun _ => hxs.entry x hx'⟩
  exact fun hxp => hp (hxp ▸ hx)

theorem queue {q : ℕ} (hxs : Released h h' p xs) (hqueue : IsQueue h q ys) (hqp : q ≠ p)
    (hq : q ∉ xs) (hdisj : ∀ y ∈ ys, y ∉ xs) : IsQueue h' q ys := by
  exact hqueue.congr (fun hlive => hlive.of_node (hxs.node q hq)) (hxs.head q hq hqp) fun y hy =>
    ⟨fun hlive => hlive.of_node (hxs.node y (hdisj y hy)), hxs.entry y (hdisj y hy)⟩

end Released

/-- A node whose queue can be released can be released, when it is no longer in the queue of its
parent: to remove it again changes nothing. -/
theorem releaseNode_spec {fuel a : ℕ} {h h' : SnodeHeap} {xs : List ℕ}
    (hpar : parentOf h a = some par) (hunlinked : ∀ p ∈ par, h.remove p a = some h)
    (hchildren : releaseChildren fuel a h = some h') (hxs : Released h h' a xs) (ha : a ∉ xs) :
    ∃ h'', releaseNode (fuel + 1) a h = some h'' ∧ Released h h'' a (xs ++ [a]) := by
  obtain ⟨h'', hfree, hrel⟩ := hxs.free (live_of_parentOf hpar) ha
  exact ⟨h'', releaseNode_succ hpar hunlinked hchildren hfree, hrel⟩

theorem releaseChildren_succ {fuel p a : ℕ} {xs : List ℕ} {h h₁ h₂ : SnodeHeap}
    (hqueue : IsQueue h p (a :: xs)) (hremove : h.remove p a = some h₁)
    (hnode : releaseNode fuel a h₁ = some h₂) :
    releaseChildren (fuel + 1) p h = releaseChildren fuel p h₂ := by
  rw [releaseChildren, hqueue.first_eq]
  simp only [List.head?_cons, Option.bind_eq_bind, Option.bind_some, hremove, hnode]

/-- The first child of `p` is removed. Nothing else is lost, and the call for the child will find
nothing left to do in the queue of `p`. -/
theorem Holds.unlink {p a : ℕ} {kids rest : Forest} (hF : Holds h (some p) (.cons a kids rest))
    (hqueue : IsQueue h p (a :: rest.roots)) (hroots : (a :: rest.roots).Nodup)
    (hp : p ∉ (Forest.cons a kids rest).addrs) :
    ∃ h', h.remove p a = some h' ∧ h'.remove p a = some h' ∧
      (IsQueue h' p rest.roots ∧ Holds h' (some p) rest) ∧
      (parentOf h' a = some (some p) ∧ IsQueue h' a kids.roots ∧ Holds h' (some a) kids) ∧
      ∀ h'' xs, rest.roots ⊆ xs → Released h' h'' p xs → Released h h'' p xs := by
  obtain ⟨h', hremove, hagain, hqueue', hnode, hfreed, hhead, hentry⟩ := remove_first hqueue hroots
  obtain ⟨ha, haqueue, hkids, hrest⟩ := hF
  simp only [Forest.addrs, List.mem_cons, List.mem_append, not_or] at hp
  -- only the entries of other children of `p` change
  have hframe : ∀ x, x ≠ p → parentOf h' x = parentOf h x ∧ h.SameHead h' x ∧
      (parentOf h x ≠ some (some p) → h.SameEntry h' x) := by
    intro x hxp
    refine ⟨by rw [parentOf, hnode, parentOf], hhead x hxp, fun hpar => hentry x fun hx => ?_⟩
    exact hpar (hrest.parentOf_root x hx)
  have hframek := fun x hx => hframe x fun hxp => hp.2.1 (hxp ▸ hx)
  have hframea := hframe a (Ne.symm hp.1)
  refine ⟨h', hremove, hagain, ⟨hqueue', ?_⟩, ⟨hframea.1.trans ha, ?_, ?_⟩, ?_⟩
  · exact hrest.congr hp.2.2 fun x hx => hframe x fun hxp => hp.2.2 (hxp ▸ hx)
  · exact hkids.queue_congr (Ne.symm hp.1) haqueue ⟨hframea.1, hframea.2.1⟩
      fun x hx => ⟨(hframek x hx).1, (hframek x hx).2.2⟩
  · exact hkids.congr hp.2.1 hframek
  · exact fun h'' xs hsub hxs => hxs.of_unlinked hnode hfreed hhead hentry hsub

/-- The loop of `release_node` gives back the forest below a node. -/
theorem releaseChildren_spec (F : Forest) {fuel p : ℕ} (hfuel : 2 * F.addrs.length < fuel)
    (hqueue : IsQueue h p F.roots) (hF : Holds h (some p) F) (hnd : (p :: F.addrs).Nodup) :
    ∃ h', releaseChildren fuel p h = some h' ∧ Released h h' p F.post := by
  induction F generalizing fuel p h with
  | nil =>
    obtain ⟨fuel, rfl⟩ : ∃ f, fuel = f + 1 := ⟨fuel - 1, by omega⟩
    refine ⟨h, ?_, ?_⟩
    · rw [releaseChildren, hqueue.first_eq]
      rfl
    · exact ⟨(List.append_nil _).symm, fun _ hx => (nomatch hx), fun _ _ => rfl,
        fun _ _ => ⟨rfl, rfl⟩, fun _ _ _ => ⟨rfl, rfl⟩⟩
  | cons a kids rest ihk ihr =>
    have hlength : (Forest.cons a kids rest).addrs.length =
        kids.addrs.length + rest.addrs.length + 1 := by
      rw [Forest.addrs, List.length_cons, List.length_append]
    obtain ⟨fuel, rfl⟩ : ∃ f, fuel = f + 2 := ⟨fuel - 2, by omega⟩
    obtain ⟨hp, hnd⟩ := List.nodup_cons.mp hnd
    -- the first removal, by the loop
    obtain ⟨h₁, hremove, hagain, ⟨hqueue₁, hrest₁⟩, ⟨ha₁, haqueue₁, hkids₁⟩, hback⟩ :=
      hF.unlink hqueue (hnd.sublist (Forest.cons a kids rest).roots_sublist) hp
    obtain ⟨ha, hnd⟩ := List.nodup_cons.mp hnd
    obtain ⟨hndk, hndr, hdisj⟩ := List.nodup_append.mp hnd
    simp only [Forest.addrs, List.mem_cons, List.mem_append, not_or] at hp ha
    -- the second one, by the call, which then gives back the nodes below the child and the child
    obtain ⟨h₂, hchildren, hkids₂⟩ :=
      ihk (by omega : 2 * kids.addrs.length < fuel) haqueue₁ hkids₁
        (List.nodup_cons.mpr ⟨ha.1, hndk⟩)
    obtain ⟨h₃, hrelease, htree⟩ :=
      releaseNode_spec ha₁ (fun q hq => Option.some.inj hq ▸ hagain) hchildren hkids₂
        fun hmem => ha.1 (Forest.mem_post.mp hmem)
    -- the other children
    have hout : ∀ x, x ≠ a → x ∉ kids.addrs → x ∉ kids.post ++ [a] := by
      intro x hxa hxk
      rw [List.mem_append, Forest.mem_post, List.mem_singleton]
      exact fun hx => hx.elim hxk hxa
    have hout' : ∀ x ∈ rest.addrs, x ∉ kids.post ++ [a] := fun x hx =>
      hout x (fun hxa => ha.2 (hxa ▸ hx)) fun hxk => hdisj x hxk x hx rfl
    obtain ⟨h₄, hloop, hrest₄⟩ :=
      ihr (by omega : 2 * rest.addrs.length < fuel + 1)
        (htree.queue hqueue₁ hp.1 (hout p hp.1 hp.2.1) fun x hx =>
          hout' x (rest.roots_sublist.subset hx))
        (htree.holds hrest₁ ha.2 hout') (List.nodup_cons.mpr ⟨hp.2.2, hndr⟩)
    refine ⟨h₄, (releaseChildren_succ hqueue hremove hrelease).trans hloop, ?_⟩
    have hall := (htree.of_mem (List.mem_append_right _ List.mem_cons_self) p).trans hrest₄
    rw [List.append_assoc, List.singleton_append] at hall
    refine hback h₄ _ (fun x hx => ?_) hall
    exact List.mem_append_right _ (List.mem_cons_of_mem a
      (Forest.mem_post.mpr (rest.roots_sublist.subset hx)))

end SnodeHeap

end ProcFS
