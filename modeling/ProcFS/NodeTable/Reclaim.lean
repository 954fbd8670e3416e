import ProcFS.NodeTable.Attach

/-!
# ProcFS.NodeTable.Reclaim — vnodes come and go

The vnode of a node is created by the callback of the thread that attaches it,
and it is reclaimed by the kernel once nobody holds an iocount on it. In between
the node and the vnode point at each other.

* `Inv.create`: the callback returns a new vnode.
* `Inv.reclaimStart`: the kernel starts to recycle one.
* `Inv.reclaim`: its node is removed and freed.
-/

namespace ProcFS.NodeTable

open State

variable {N : ℕ}

/-! ## Vnodes come and go -/

/-- A step that changes vnodes only. Those that are linked with a node stay linked. -/
theorem Agree.of_vnodes {s s' : State N} (hbuckets : s'.buckets = s.buckets)
    (hmem : s'.mem = s.mem)
    (hlinked : ∀ v, s.vstate v = .live ∨ s.vstate v = .reclaiming →
      s'.fsnode v = s.fsnode v ∧ (s'.vstate v = .live ∨ s'.vstate v = .reclaiming))
    (hreclaimed : ∀ v, s.vstate v = .reclaimed → s'.vstate v = .reclaimed)
    (hnext : s.nextAddr ≤ s'.nextAddr) : Agree s s' none := by
  -- neither the table nor a node record is written
  have htable : ∀ n, s'.InTable n ↔ s.InTable n := by
    intro n
    rw [InTable, InTable, hbuckets]
  constructor
  case inTable => exact fun n _ => htable n
  case key =>
    intro n _ _
    rw [hmem]
  case pending =>
    intro n _ hn
    refine ⟨(htable n).mpr hn.inTable, ?_, ?_⟩
    · rw [hmem]
      exact hn.attaching
    · rw [hmem]
      exact hn.vnode
  case waiting =>
    intro n _ hn
    rw [hmem]
    exact hn
  case attached =>
    intro n v _ hv
    obtain ⟨hfsnode, hvstate⟩ := hlinked v hv.vstate
    refine ⟨(htable n).mpr hv.inTable, ?_, ?_, hfsnode.trans hv.fsnode, hvstate⟩
    · rw [hmem]
      exact hv.attaching
    · rw [hmem]
      exact hv.vnode
  -- no node loses its vnode, so there is nothing to show
  case detached => exact fun _ _ heq => (by cases heq)
  case reclaimed => exact hreclaimed
  case nextAddr => exact hnext

variable {s : State N} {v : Vnode}

/-- Vnodes in different states are different. -/
theorem vnode_ne {v w : Vnode} {a b : Vstate} (hv : s.vstate v = a) (hw : s.vstate w = b)
    (hne : a ≠ b) : v ≠ w := by
  rintro rfl
  exact hne (hv.symm.trans hw)

theorem vnodeCreate_of_ne (n : Addr) (hv : v ≠ s.nextVnode) :
    (s.vnodeCreate n).vstate v = s.vstate v ∧ (s.vnodeCreate n).fsnode v = s.fsnode v :=
  ⟨Function.update_of_ne hv _ _, Function.update_of_ne hv _ _⟩

theorem vnodeCreate_self (s : State N) (n : Addr) :
    (s.vnodeCreate n).vstate s.nextVnode = .live ∧
      (s.vnodeCreate n).fsnode s.nextVnode = some n :=
  ⟨Function.update_self _ _ _, Function.update_self _ _ _⟩

/-- A vnode that is in use is not the next one. -/
theorem Inv.vnodeCreate_of_used (h : Inv s) (n : Addr) (hv : s.vstate v ≠ .unused) :
    (s.vnodeCreate n).vstate v = s.vstate v ∧ (s.vnodeCreate n).fsnode v = s.fsnode v :=
  vnodeCreate_of_ne n (vnode_ne rfl (h.unused s.nextVnode (Nat.le_refl _)) hv)

theorem Inv.agree_vnodeCreate (h : Inv s) (t : Fin N) (n : Addr) (p : Pc) :
    Agree s ((s.vnodeCreate n).setPc t p) none := by
  refine Agree.of_vnodes rfl rfl (fun v hv => ?_) (fun v hv => ?_) (Nat.le_refl _)
  · obtain ⟨hvstate, hfsnode⟩ := h.vnodeCreate_of_used n (v := v) (by
      rcases hv with hv | hv <;> simp [hv])
    exact ⟨hfsnode, hvstate.symm ▸ hv⟩
  · exact (h.vnodeCreate_of_used n (by simp [hv])).1.trans hv

/-- What the thread relies on that has just created a vnode for its node. -/
theorem State.ThreadOk.created {k : Key} {n : Addr} (hpend : s.Pending n) (hkey : (s.mem n).key = k)
    (hv : s.vstate v = .live ∧ s.fsnode v = some n) :
    s.ThreadOk k (.created n (some n) (.ok v)) := by
  constructor
  case attaches =>
    intro m hm
    cases hm
    exact ⟨hpend, hkey, rfl⟩
  -- the vnode that `procfs_create_vnode` returned has the node
  case answer =>
    intro m v' hm hv'
    cases hm
    cases hv'
    exact hv
  case spare => simp [Pc.spare]
  all_goals simp [Pc.slept, Pc.sleepsOn, Pc.wants, Pc.gives]

/-- The callback returns a new vnode. -/
theorem Inv.create {s : State N} {t : Fin N} {n : Addr} {new : Option Addr} (h : Inv s)
    (hpc : s.pc t = .creating n new) :
    Inv ((s.vnodeCreate n).setPc t (.created n new (.ok s.nextVnode))) := by
  have ht : (s.pc t).attaches = some n := by
    rw [hpc]
    rfl
  obtain ⟨hpend, hkey, hnew⟩ := (h.thread t).attaches n ht
  obtain rfl : new = some n := by
    rw [hpc] at hnew
    exact hnew
  set s' := (s.vnodeCreate n).setPc t (.created n (some n) (.ok s.nextVnode)) with hs'
  have ha : Agree s s' none := h.agree_vnodeCreate t n _
  have hpcself : s'.pc t = .created n (some n) (.ok s.nextVnode) := setPc_pc_self _ _ _
  have hrest : ∀ u, u ≠ t → s'.pc u = s.pc u := fun u hu => setPc_pc_of_ne _ _ hu
  have hatt : ∀ u, (s'.pc u).attaches = (s.pc u).attaches := by
    intro u
    by_cases hu : u = t
    · rw [hu, hpcself, ht]
      rfl
    · rw [hrest u hu]
  constructor
  case table => exact ⟨h.table.bucket, h.table.nodup, h.table.key_inj, h.table.lt_next⟩
  case node =>
    intro m hm
    exact ha.node h (Option.some_ne_none m) hm fun u hu => (hatt u).trans hu
  case vnode =>
    intro v hv
    by_cases hvn : v = s.nextVnode
    · rw [hvn]
      exact Or.inr ⟨(vnodeCreate_self s n).1, t, by rw [hpcself]; rfl⟩
    · have hvs : s'.vstate v = s.vstate v := (vnodeCreate_of_ne n hvn).1
      rw [hvs] at hv ⊢
      rcases h.vnode v hv with ⟨m, hm⟩ | ⟨hlive, u, hu⟩
      · exact Or.inl ⟨m, ha.attached m v (Option.some_ne_none m) hm⟩
      · -- whoever has an answer is another thread
        have hut : u ≠ t := by
          rintro rfl
          rw [hpc] at hu
          cases hu
        exact Or.inr ⟨hlive, u, by rw [hrest u hut]; exact hu⟩
  case unused =>
    intro v hv
    have hlt : s.nextVnode < v := hv
    have hvs : s'.vstate v = s.vstate v := (vnodeCreate_of_ne n (Nat.ne_of_gt hlt)).1
    rw [hvs]
    exact h.unused v (Nat.le_of_lt hlt)
  case thread =>
    intro u
    rw [setPc_keyOf]
    by_cases hu : u = t
    · rw [hu, hpcself]
      exact .created (ha.pending n (Option.some_ne_none n) hpend) hkey (vnodeCreate_self s n)
    · rw [hrest u hu]
      refine ha.threadOk (h.thread u) (fun m _ => Option.some_ne_none m) ?_
      intro v _ hlive
      obtain ⟨hvs, hfs⟩ := h.vnodeCreate_of_used n (v := v) (by simp [hlive])
      exact ⟨hvs.trans hlive, hfs⟩
  case attacher => exact h.attacher.of_le fun u m hu => (hatt u).symm.trans hu
  case spare =>
    refine h.spare.of_le ?_
    intro u m hu
    by_cases hut : u = t
    · rw [hut, hpcself] at hu
      simp [Pc.spare] at hu
    · rwa [hrest u hut] at hu

/-- The kernel starts to recycle a vnode that nobody holds. -/
theorem Inv.reclaimStart (h : Inv s) (hlive : s.vstate v = .live)
    (hholds : ∀ t, (s.pc t).holds v = false) : Inv (s.reclaimStart v) := by
  set s' := s.reclaimStart v with hs'
  have hself : s'.vstate v = .reclaiming := by simp [hs', State.reclaimStart]
  have hoff : ∀ w, w ≠ v → s'.vstate w = s.vstate w := by
    intro w hw
    simp [hs', State.reclaimStart, hw]
  have ha : Agree s s' none := by
    refine Agree.of_vnodes rfl rfl (fun w hw => ⟨rfl, ?_⟩) (fun w hw => ?_) (Nat.le_refl _)
    · by_cases hwv : w = v
      · rw [hwv]
        exact Or.inr hself
      · rwa [hoff w hwv]
    · exact (hoff w (vnode_ne hw hlive (by decide))).trans hw
  -- whoever holds a vnode holds another one
  have hother : ∀ t w, (s.pc t).holds w = true → w ≠ v := by
    rintro t w hw rfl
    rw [hholds t] at hw
    cases hw
  constructor
  case table => exact ⟨h.table.bucket, h.table.nodup, h.table.key_inj, h.table.lt_next⟩
  case node =>
    intro m hm
    exact ha.node h (Option.some_ne_none m) hm fun u hu => hu
  case vnode =>
    intro w hw
    have hw' : s.vstate w = .live ∨ s.vstate w = .reclaiming := by
      by_cases hwv : w = v
      · rw [hwv]
        exact Or.inl hlive
      · rwa [hoff w hwv] at hw
    rcases h.vnode w hw' with ⟨m, hm⟩ | ⟨hwlive, u, hu⟩
    · exact Or.inl ⟨m, ha.attached m w (Option.some_ne_none m) hm⟩
    · rw [hoff w (hother u w (Pc.holds_of_answer hu))]
      exact Or.inr ⟨hwlive, u, hu⟩
  case unused =>
    intro w hw
    have hunused := h.unused w hw
    exact (hoff w (vnode_ne hunused hlive (by decide))).trans hunused
  case thread =>
    intro u
    refine ha.threadOk (h.thread u) (fun m _ => Option.some_ne_none m) ?_
    intro w hw hwlive
    rw [hoff w (hother u w hw)]
    exact ⟨hwlive, rfl⟩
  case attacher => exact h.attacher
  case spare => exact h.spare

/-- A vnode that is being reclaimed is linked with a node of the table. -/
theorem Inv.attached_of_reclaiming (h : Inv s) (hv : s.vstate v = .reclaiming) :
    ∃ n, s.Attached n v := by
  rcases h.vnode v (Or.inr hv) with hn | ⟨hlive, -⟩
  · exact hn
  · rw [hv] at hlive
    cases hlive

theorem procfsVnopReclaim_eq {n : Addr} (hn : s.Attached n v) :
    procfsVnopReclaim s v = { s.procfsnodeFreeNode n with
      vstate := Function.update s.vstate v .reclaimed
      fsnode := Function.update s.fsnode v none } := by
  simp only [procfsVnopReclaim, hn.fsnode]
  rfl

/-- The node of a vnode that is being reclaimed is removed and freed. -/
theorem Inv.reclaim (h : Inv s) (hv : s.vstate v = .reclaiming) : Inv (procfsVnopReclaim s v) := by
  -- the node and the vnode point at each other until now
  rcases h.attached_of_reclaiming hv with ⟨n, hn⟩
  rw [procfsVnopReclaim_eq hn]
  set s' : State N := { s.procfsnodeFreeNode n with
      vstate := Function.update s.vstate v .reclaimed
      fsnode := Function.update s.fsnode v none } with hs'
  have hself : s'.vstate v = .reclaimed := by simp [hs']
  have hoff : ∀ w, w ≠ v → s'.vstate w = s.vstate w ∧ s'.fsnode w = s.fsnode w := by
    intro w hw
    simp [hs', hw]
  have hremoved : s'.TableOk ∧ ∀ m, s'.InTable m ↔ s.InTable m ∧ m ≠ n :=
    h.table.remove (fun _ => rfl) (fun _ => rfl) rfl
  rcases hremoved with ⟨htable, htab⟩
  have ha : Agree s s' (some n) := by
    refine Agree.off (fun m hm => by simp [htab, hm]) (fun _ _ => rfl) ?_ ?_ ?_ (Nat.le_refl _)
    · -- the vnodes of other nodes are other vnodes
      intro m w hm hw
      have hwv : w ≠ v := by
        rintro rfl
        exact hm (Option.some.inj (hw.fsnode.symm.trans hn.fsnode))
      exact ⟨(hoff w hwv).2, (hoff w hwv).1⟩
    · -- and the node has no other vnode
      intro w hw
      have hwv : w = v := Option.some.inj (hw.vnode.symm.trans hn.vnode)
      rw [hwv]
      exact hself
    · intro w hw
      by_cases hwv : w = v
      · rw [hwv]
        exact hself
      · rw [(hoff w hwv).1]
        exact hw
  constructor
  case table => exact htable
  case node =>
    intro m hm
    have hmn : some m ≠ some n := fun heq => ((htab m).mp hm).2 (Option.some.inj heq)
    exact ha.node h hmn hm fun u hu => hu
  case vnode =>
    intro w hw
    -- a vnode that is in use is not this one
    have hwv : w ≠ v := by
      rintro rfl
      rw [hself] at hw
      rcases hw with hw | hw <;> cases hw
    rw [(hoff w hwv).1] at hw ⊢
    rcases h.vnode w hw with ⟨m, hm⟩ | hanswer
    · refine Or.inl ⟨m, ha.attached m w ?_ hm⟩
      intro heq
      cases heq
      exact hwv (Option.some.inj (hm.vnode.symm.trans hn.vnode))
    · exact Or.inr hanswer
  case unused =>
    intro w hw
    have hunused := h.unused w hw
    exact (hoff w (vnode_ne hunused hv (by decide))).1.trans hunused
  case thread =>
    intro u
    refine ha.threadOk (h.thread u) ?_ ?_
    · -- nobody sleeps on, attaches or keeps a node that is linked with a vnode
      rintro m (hm | hm | hm) heq <;> cases heq
      · exact ((h.thread u).sleeps n hm).1.not_attached hn
      · exact ((h.thread u).attaches n hm).1.not_attached hn
      · exact ((h.thread u).spare n hm).2 hn.inTable
    · -- a vnode that someone holds is live, so it is not this one
      intro w _ hlive
      obtain ⟨hvs, hfs⟩ := hoff w (vnode_ne hlive hv (by decide))
      exact ⟨hvs.trans hlive, hfs⟩
  case attacher => exact h.attacher
  case spare => exact h.spare

end ProcFS.NodeTable
