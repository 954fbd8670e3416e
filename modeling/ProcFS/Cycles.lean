import ProcFS.Mount

/-!
# ProcFS.Cycles — base ids over mounts and unmounts

Every mount builds the structure tree again, and gives the 174 nodes below the root the next
values of a 16-bit counter that is never reset. The ids of one tree are always told apart by
it, but the id of the root is fixed: as the counter comes round, it gives that id to another
node. This happens for the first time after 376 cycles.

* `idsApart_iff`: when the ids of one tree tell its nodes apart.
* `Kext.Idle.cycles`: what any number of cycles does to the counter.
* `mounted_idsApart_iff`: after how many cycles a mount has a tree with such ids.
-/

namespace ProcFS

/-! ## The ids of one tree -/

/-- Every node of a table has the base id of its structure node, which is one of the tree. -/
def TableOver (t : SnodeTree) (table : List Pfsnode) : Prop :=
  ∀ pnp ∈ table, pnp.nodeStructureNode ∈ t.nodes ∧
    pnp.nodeId.nodeidBaseId = pnp.nodeStructureNode.psnBaseNodeId

/-- The base ids of a tree tell its nodes apart: they are pairwise different, only the root
has the id reserved for it, and a node that is found for a structure node is a node of
it. -/
structure IdsApart (t : SnodeTree) : Prop where
  distinct : (t.nodes.map Pfssnode.psnBaseNodeId).Nodup
  reserved : ∀ s ∈ t.nodes, s.psnBaseNodeId = procfsRootNodeBaseId →
    procfsStructureRootNode t = some s
  unshared : ∀ table, TableOver t table → ∀ s ∈ t.nodes, ∀ pmp nodeId env create pnp,
    nodeId.nodeidBaseId = s.psnBaseNodeId →
    (procfsnodeFind table pmp nodeId (some s) env create).1 = .ok pnp → pnp.nodeStructureNode = s

/-- Nodes are shared only where ids are. -/
theorem unshared_of_distinct {t : SnodeTree} (h : (t.nodes.map Pfssnode.psnBaseNodeId).Nodup)
    {table : List Pfsnode} (htable : TableOver t table) {s : Pfssnode} (hs : s ∈ t.nodes)
    {pmp : Pfsmount} {nodeId : PfsId} {env : VnodeEnv} {create : Pfssnode → PfsId → Reply Vnode}
    {pnp : Pfsnode} (hbase : nodeId.nodeidBaseId = s.psnBaseNodeId)
    (hfind : (procfsnodeFind table pmp nodeId (some s) env create).1 = .ok pnp) :
    pnp.nodeStructureNode = s := by
  rcases procfsnodeFind_cases table pmp nodeId (some s) env create with
    ⟨found, hmem, -, hid, heq⟩ | ⟨s', mp, hs', -, heq⟩ | ⟨hfail, -⟩
  · rw [heq] at hfind
    cases hfind
    rcases htable pnp hmem with ⟨hnode, hsame⟩
    exact List.inj_on_of_nodup_map h hnode hs (by rw [← hsame, hid, hbase])
  · rw [heq] at hfind
    cases hfind
    exact (Option.some.inj hs').symm
  · exact absurd hfind (hfail pnp)

theorem nodup_nodes (build : ℕ) (next : UInt16) : (procfsStructureInit build next).nodes.Nodup := by
  have horder := procfsStructureInit_inOrder build next
  rw [List.nodup_iff_pairwise_ne, List.pairwise_iff_getElem]
  intro i j hi hj hij heq
  have haddr := horder.addr i _ (List.getElem?_eq_getElem hi)
  rw [heq, horder.addr j _ (List.getElem?_eq_getElem hj)] at haddr
  omega

/-- The ids of a built tree tell its nodes apart if and only if the counter does not pass
the id of the root. -/
theorem idsApart_iff (build : ℕ) (next : UInt16) :
    IdsApart (procfsStructureInit build next) ↔
      ∀ j < 174, next + UInt16.ofNat j ≠ procfsRootNodeBaseId := by
  constructor
  · intro h j hj hbase
    have horder := procfsStructureInit_inOrder build next
    have hcount := length_nodes build next
    -- the node at place `j + 1` would be the root
    have hget : (procfsStructureInit build next).nodes[j + 1]? =
        some (procfsStructureInit build next).nodes[j + 1] := List.getElem?_eq_getElem (by omega)
    have hroot := h.reserved _ (List.mem_of_getElem? hget)
      ((horder.base (j + 1) _ hget (by omega)).trans hbase)
    have hzero := horder.addr 0 _ hroot
    rw [horder.addr (j + 1) _ hget] at hzero
    omega
  · intro h
    have hbase : ∀ s ∈ (procfsStructureInit build next).nodes, s.psnAddr ≠ 0 →
        s.psnBaseNodeId ≠ procfsRootNodeBaseId := by
      intro s hs hne
      have hlt := psnAddr_lt hs
      rw [psnBaseNodeId_eq hs hne]
      exact h (s.psnAddr - 1) (by omega)
    have hdistinct : ((procfsStructureInit build next).nodes.map Pfssnode.psnBaseNodeId).Nodup := by
      -- below the root the counter tells the nodes apart, and it did not pass the root's id
      refine (nodup_nodes build next).map_on ?_
      intro s hs s' hs' heq
      by_cases hzero : s.psnAddr = 0
      · have hroot := eq_root_of_psnAddr hs hzero
        by_cases hzero' : s'.psnAddr = 0
        · rw [hroot, eq_root_of_psnAddr hs' hzero']
        · exact absurd (heq.symm.trans (by rw [hroot])) (hbase s' hs' hzero')
      · by_cases hzero' : s'.psnAddr = 0
        · have hroot := eq_root_of_psnAddr hs' hzero'
          exact absurd (heq.trans (by rw [hroot])) (hbase s hs hzero)
        · exact eq_of_psnBaseNodeId hs hs' hzero hzero' heq
    refine ⟨hdistinct, ?_, ?_⟩
    · intro s hs hreserved
      by_cases hzero : s.psnAddr = 0
      · rw [procfsStructureRootNode_eq, eq_root_of_psnAddr hs hzero]
      · exact absurd hreserved (hbase s hs hzero)
    · intro table htable s hs pmp nodeId env create pnp hbase hfind
      exact unshared_of_distinct hdistinct htable hs hbase hfind

/-! ## The counter -/

/-- The counter when the tree was built `n` times. -/
def counterAfter (n : ℕ) : UInt16 := procfsRootNodeBaseId + 1 + UInt16.ofNat (174 * n)

theorem counterAfter_succ (n : ℕ) : counterAfter (n + 1) = counterAfter n + 174 := by
  have hlit : UInt16.ofNat 174 = 174 := rfl
  rw [counterAfter, counterAfter, Nat.mul_succ, UInt16.ofNat_add, hlit, ← UInt16.add_assoc]

/-- The counter passes 1 while it gives out 174 ids, or it does not. -/
theorem counterAfter_ne_iff (n : ℕ) :
    (∀ j < 174, counterAfter n + UInt16.ofNat j ≠ procfsRootNodeBaseId) ↔
      (174 * n + 1) % 65536 < 65363 := by
  have hnat : ∀ j < 174, (counterAfter n + UInt16.ofNat j).toNat = (174 * n + 2 + j) % 65536 := by
    intro j hj
    rw [counterAfter, UInt16.toNat_add, UInt16.toNat_add, UInt16.toNat_ofNat', UInt16.toNat_ofNat']
    have hone : (procfsRootNodeBaseId + 1).toNat = 2 := rfl
    rw [hone]
    omega
  have hone : procfsRootNodeBaseId.toNat = 1 := rfl
  constructor
  · intro h
    by_contra hlt
    -- the place at which the counter comes to 1
    have hj := h (65536 - (174 * n + 1) % 65536) (by omega)
    apply hj
    rw [← UInt16.toNat_inj, hnat _ (by omega), hone]
    omega
  · intro h j hj heq
    have heq := congrArg UInt16.toNat heq
    have hmod : (174 * n + 2 + j) % 65536 = ((174 * n + 1) % 65536 + (1 + j)) % 65536 := by omega
    -- 174 and 65536 are even, so no building starts with the id of the root
    have hodd : (174 * n + 1) % 65536 % 2 = 1 := by omega
    rw [hnat j hj, hone, hmod] at heq
    clear hmod hnat
    generalize (174 * n + 1) % 65536 = r at h hodd heq
    omega

/-! ## Cycles -/

def Event.isUse : Event → Bool
  | .mount .. => false
  | .unmount _ => false
  | .root .. => true
  | .lookup .. => true
  | .reclaim _ => true

/-- An instance that is mounted, used and unmounted. -/
structure Cycle where
  mp : MountPoint
  data : MountData
  mem : Pfsmount
  now : Timespec
  uses : List Event
  isUse : ∀ e ∈ uses, e.isUse = true

def Cycle.mount (c : Cycle) : Event := .mount c.mp c.data (some c.mem) c.now

def Cycle.events (c : Cycle) : List Event := c.mount :: (c.uses ++ [.unmount c.mp])

/-- Nothing is mounted, and the tree was built `n` times. -/
structure Kext.Idle (k : Kext) (n : ℕ) : Prop where
  unmounted : ∀ mp, (k.vfsMount mp).fsprivate = none
  rootNode : k.rootNode = none
  builds : k.structureBuilds = n
  counter : k.nextNodeId = counterAfter n

/-- One instance is mounted, with the tree that was built after `n` others. -/
structure Kext.Single (k : Kext) (mp : MountPoint) (n : ℕ) : Prop where
  others : ∀ mp', mp' ≠ mp → (k.vfsMount mp').fsprivate = none
  rootNode : k.rootNode = some (procfsStructureInit n (counterAfter n))
  builds : k.structureBuilds = n + 1
  counter : k.nextNodeId = counterAfter (n + 1)

theorem Kext.idle_init : Kext.init.Idle 0 where
  unmounted _ := rfl
  rootNode := rfl
  builds := rfl
  counter := rfl

variable {k k' : Kext} {n : ℕ}

theorem Kext.Idle.mount (h : k.Idle n) {c : Cycle} (hstep : k.step c.mount = some k') :
    k'.Single c.mp n := by
  have hk' : k' = (k.addInstance c.mp c.mem c.now).structureInit := by
    simp only [Kext.step, Cycle.mount, procfsMount, h.unmounted, Option.some.injEq] at hstep
    exact hstep.symm
  have hroot : (k.addInstance c.mp c.mem c.now).rootNode = none := h.rootNode
  have hbuilds : (k.addInstance c.mp c.mem c.now).structureBuilds = n := h.builds
  have hcounter : (k.addInstance c.mp c.mem c.now).nextNodeId = counterAfter n := h.counter
  subst hk'
  refine ⟨?_, ?_, ?_, ?_⟩
  · intro mp' hne
    rw [Kext.structureInit_vfsMount]
    show (Function.update k.vfsMount c.mp _ mp').fsprivate = none
    rw [Function.update_of_ne hne, h.unmounted]
  · simp only [Kext.structureInit, hroot, hbuilds, hcounter]
  · simp only [Kext.structureInit, hroot, hbuilds]
  · simp only [Kext.structureInit, hroot, hcounter, procfsStructureInit_nextNodeId,
      counterAfter_succ]

/-- Using an instance changes the table of nodes only. -/
theorem Kext.step_use {e : Event} (he : e.isUse = true) (hstep : k.step e = some k') :
    k' = { k with table := k'.table } := by
  cases e with
  | mount => cases he
  | unmount => cases he
  | root mp env =>
    simp only [Kext.step] at hstep
    split at hstep
    · cases hstep
    · cases hstep
      rfl
  | lookup dir call =>
    simp only [Kext.step] at hstep
    split at hstep
    · rw [Option.ite_none_right_eq_some] at hstep
      cases hstep.2
      rfl
    · cases hstep
  | reclaim pnp =>
    simp only [Kext.step] at hstep
    rw [Option.ite_none_right_eq_some] at hstep
    cases hstep.2
    rfl

theorem Kext.Single.use {k k' : Kext} {mp : MountPoint} {n : ℕ} (h : k.Single mp n) {e : Event}
    (he : e.isUse = true) (hstep : k.step e = some k') : k'.Single mp n := by
  rw [Kext.step_use he hstep]
  exact ⟨h.others, h.rootNode, h.builds, h.counter⟩

theorem Kext.Single.unmount {mp : MountPoint} (h : k.Single mp n)
    (hstep : k.step (.unmount mp) = some k') : k'.Idle (n + 1) := by
  simp only [Kext.step] at hstep
  split at hstep
  · cases hstep
  · rename_i pmp hpmp
    cases hstep
    simp only [procfsUnmount, hpmp, Kext.structureFree]
    refine ⟨?_, rfl, h.builds, h.counter⟩
    intro mp'
    by_cases heq : mp' = mp
    · subst heq
      show (Function.update k.vfsMount mp' _ mp').fsprivate = none
      rw [Function.update_self]
    · show (Function.update k.vfsMount mp _ mp').fsprivate = none
      rw [Function.update_of_ne heq, h.others mp' heq]

/-- A cycle builds the tree once. -/
theorem Kext.Idle.cycle (h : k.Idle n) {c : Cycle} (hrun : run Kext.step k c.events = some k') :
    k'.Idle (n + 1) := by
  rcases run_cons.mp hrun with ⟨k₁, hmount, hrun⟩
  rcases run_concat.mp hrun with ⟨k₂, huses, hunmount⟩
  have hsingle : k₂.Single c.mp n := by
    refine run_invariant_of (I := fun k => k.Single c.mp n) (C := fun _ e => e.isUse = true)
      (h.mount hmount) (fun t e t' hI he hstep => hI.use he hstep) ?_ huses
    intro bs e t hbs _
    exact c.isUse e (hbs.subset (List.mem_append_right _ (List.mem_singleton_self e)))
  exact hsingle.unmount hunmount

/-- So any number of cycles builds it as often. -/
theorem Kext.Idle.cycles (h : k.Idle n) {cs : List Cycle}
    (hrun : run Kext.step k (cs.flatMap Cycle.events) = some k') : k'.Idle (n + cs.length) := by
  induction cs generalizing k n with
  | nil =>
    cases hrun
    exact h
  | cons c cs ih =>
    rw [List.flatMap_cons] at hrun
    rcases run_append.mp hrun with ⟨k₁, hcycle, hrest⟩
    have hidle := ih (h.cycle hcycle) hrest
    rwa [Nat.add_assoc, Nat.add_comm 1, ← List.length_cons] at hidle

/-- After any number of cycles the next mount builds a tree whose ids tell its nodes apart, if
and only if the counter does not come round to the id of the root while it is built. -/
theorem mounted_idsApart_iff (cs : List Cycle) (c : Cycle) {k : Kext}
    (hrun : run Kext.step Kext.init (cs.flatMap Cycle.events ++ [c.mount]) = some k) :
    ∃ t, k.rootNode = some t ∧ (IdsApart t ↔ (174 * cs.length + 1) % 65536 < 65363) := by
  rcases run_concat.mp hrun with ⟨k₁, hcycles, hmount⟩
  have hidle := Kext.idle_init.cycles hcycles
  rw [Nat.zero_add] at hidle
  have hsingle := hidle.mount hmount
  refine ⟨_, hsingle.rootNode, ?_⟩
  rw [idsApart_iff, counterAfter_ne_iff]

def plainCycle : Cycle where
  mp := 0
  data := .null
  mem := ⟨0, 0, 0, ⟨0, 0⟩⟩
  now := ⟨0, 0⟩
  uses := []
  isUse := by simp

theorem mounted_idsApart_second :
    ∃ k, run Kext.step Kext.init ([plainCycle].flatMap Cycle.events ++ [plainCycle.mount]) =
      some k ∧
      ∃ t, k.rootNode = some t ∧ IdsApart t := by
  refine ⟨_, rfl, ?_⟩
  rcases mounted_idsApart_iff [plainCycle] plainCycle rfl with ⟨t, ht, hiff⟩
  exact ⟨t, ht, hiff.mpr (by decide)⟩

theorem run_plainCycle {k : Kext} (h : k.Idle n) :
    ∃ k', run Kext.step k plainCycle.events = some k' := by
  have hmount : k.step plainCycle.mount =
      some (procfsMount k 0 .null (some plainCycle.mem) plainCycle.now).2 := rfl
  have hprivate := (procfsMount_new (h.unmounted 0) .null plainCycle.mem plainCycle.now).2
  refine ⟨procfsUnmount (procfsMount k 0 .null (some plainCycle.mem) plainCycle.now).2 0, ?_⟩
  refine run_cons.mpr ⟨_, hmount, run_cons.mpr ⟨_, ?_, rfl⟩⟩
  have hmp : plainCycle.mp = 0 := rfl
  simp only [Kext.step, hmp, hprivate]

theorem run_plainCycles {k : Kext} (h : k.Idle n) (m : ℕ) :
    ∃ k', run Kext.step k ((List.replicate m plainCycle).flatMap Cycle.events) = some k' := by
  induction m generalizing k n with
  | zero => exact ⟨k, rfl⟩
  | succ m ih =>
    rcases run_plainCycle h with ⟨k₁, hcycle⟩
    rcases ih (h.cycle hcycle) with ⟨k', hrest⟩
    rw [List.replicate_succ, List.flatMap_cons]
    exact ⟨k', run_append.mpr ⟨k₁, hcycle, hrest⟩⟩

/-- After 753 cycles the file `default_smp_affinity_list` has the id of the root. -/
theorem affinityList_has_root_id :
    ∃ k t s, run Kext.step Kext.init
        ((List.replicate 753 plainCycle).flatMap Cycle.events ++ [plainCycle.mount]) = some k ∧
      k.rootNode = some t ∧ s ∈ t.nodes ∧ s.psnName = cstr "default_smp_affinity_list" ∧
      s.psnBaseNodeId = procfsRootNodeBaseId ∧ ¬ IdsApart t := by
  rcases run_plainCycles Kext.idle_init 753 with ⟨k₁, hcycles⟩
  have hidle := Kext.idle_init.cycles hcycles
  rw [List.length_replicate, Nat.zero_add] at hidle
  have hmount : k₁.step plainCycle.mount =
      some (procfsMount k₁ 0 .null (some plainCycle.mem) plainCycle.now).2 := rfl
  have hroot := (hidle.mount hmount).rootNode
  have hget : ∃ s, (procfsStructureInit 753 (counterAfter 753)).nodes[50]? = some s ∧
      s.psnName = cstr "default_smp_affinity_list" ∧
      s.psnBaseNodeId = procfsRootNodeBaseId := by
    refine ⟨⟨753, 50, .irq, cstr "default_smp_affinity_list", 1, 0, some 46⟩, ?_, rfl, rfl⟩
    decide +kernel
  rcases hget with ⟨s, hget, hname, hbase⟩
  refine ⟨_, _, s, run_concat.mpr ⟨k₁, hcycles, hmount⟩, hroot, List.mem_of_getElem? hget, hname,
    hbase, ?_⟩
  rw [idsApart_iff, counterAfter_ne_iff]
  decide

end ProcFS
