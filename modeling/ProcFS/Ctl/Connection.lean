import Mathlib.Data.Finset.Insert
import ProcFS.Ctl.Safety

/-!
# ProcFS.Ctl.Connection — one flag and one unit for all daemons

The kernel extension keeps one flag and one unit number, whatever the number of the
daemons that are connected. A connect overwrites both; a disconnect clears the flag
and fails everything in flight, whichever unit it was. That is right in exactly the runs
in which nobody else is connected when a unit disconnects. A daemon that restarts
connects before its predecessor's socket is closed, and is then taken for gone.

* `Step.connection`: which steps write the flag and the unit number.
* `connection_tracked_iff`: in which runs they follow the connections.
-/

namespace ProcFS.Ctl

variable {args : ℕ → Args}

/-! ## The units that are connected -/

/-- What a step does to the set of the connected units. -/
def Act.units (connected : Finset UInt32) : Act → Finset UInt32
  | .connect unit => insert unit connected
  | .disconnect unit => connected.erase unit
  | _ => connected

/-- The units that have connected and not disconnected since. -/
def connectedUnits (acts : List Act) : Finset UInt32 := acts.foldl Act.units ∅

theorem connectedUnits_concat (acts : List Act) (a : Act) :
    connectedUnits (acts ++ [a]) = a.units (connectedUnits acts) := by
  simp [connectedUnits]

/-- What the kernel sees to: a unit disconnects only while it is connected, and
`ctl_enqueuedata` delivers only to a unit that is. -/
structure KernelControl (args : ℕ → Args) (acts : List Act) : Prop where
  disconnects : ∀ bs unit, bs ++ [.disconnect unit] <+: acts → unit ∈ connectedUnits bs
  enqueues : ∀ bs t i tk, bs ++ [.enqueue i 0] <+: acts → runFrom args bs = some t →
    t.pc i = .allocated tk → tk.unit ∈ connectedUnits bs

/-! ## What the flag and the unit number are for -/

/-- At each point of the run the flag says whether a unit is connected, the unit number is
that of a connected one, and a disconnect fails no request that was sent to another unit. -/
structure Tracked (args : ℕ → Args) (acts : List Act) : Prop where
  flag : ∀ bs t, bs <+: acts → runFrom args bs = some t →
    (t.gCtlConnected = true ↔ (connectedUnits bs).Nonempty)
  unit : ∀ bs t, bs <+: acts → runFrom args bs = some t → t.gCtlConnected = true →
    t.gCtlUnit ∈ connectedUnits bs
  failed : ∀ bs t unit i tk, bs ++ [.disconnect unit] <+: acts → runFrom args bs = some t →
    t.life i = .pending tk true → (t.procfsCtlDisconnect unit).life i ≠ .pending tk true →
    tk.unit = unit

/-- Nobody else is connected when a unit disconnects. -/
def LastToLeave (acts : List Act) : Prop :=
  ∀ bs unit, bs ++ [.disconnect unit] <+: acts → connectedUnits bs = {unit}

/-! ## One step -/

/-- The flag, the unit number and the requests in flight, in one state. -/
structure Conn (connected : Finset UInt32) (s : State) : Prop where
  flag : s.gCtlConnected = true ↔ connected.Nonempty
  unit : s.gCtlConnected = true → s.gCtlUnit ∈ connected
  sent : ∀ i tk, s.life i = .pending tk true → tk.unit ∈ connected

/-- Only a connect and a disconnect write the flag and the unit number. -/
theorem Step.connection {s s' : State} {a : Act} (h : Step args s a s')
    (hconnect : ∀ unit, a ≠ .connect unit) (hdisconnect : ∀ unit, a ≠ .disconnect unit) :
    s'.gCtlConnected = s.gCtlConnected ∧ s'.gCtlUnit = s.gCtlUnit := by
  cases h with
  | connect => exact absurd rfl (hconnect _)
  | disconnect => exact absurd rfl (hdisconnect _)
  | _ => exact ⟨rfl, rfl⟩

/-- A call with a request that is not sent yet is about to send it. -/
theorem allocated_of_pending {s : State} {i : ℕ} {tk : Ticket}
    (h : s.life i = .pending tk false) : s.pc i = .allocated tk := by
  rw [State.life] at h
  cases hpc : s.pc i with
  | allocated tk' =>
    rw [hpc] at h
    rw [(Slot.eq_of_life_pending h).2.1]
  -- behind `ctl_enqueuedata` the request counts as sent
  | waiting tk' | asleep tk' =>
    rw [hpc] at h
    cases (Slot.eq_of_life_pending h).2.2
  | idle | checked | refused | leaving | returned =>
    rw [hpc] at h
    cases h

/-- A request that is in flight after a step was so before, or was just sent. -/
theorem Step.inFlight {s s' : State} {a : Act} {i : ℕ} {tk : Ticket} (hinv : Inv s)
    (h : Step args s a s') (hpending : s'.life i = .pending tk true) :
    s.life i = .pending tk true ∨ a = .enqueue i 0 ∧ s.pc i = .allocated tk := by
  have hlife := h.life hinv i
  rw [hpending] at hlife
  generalize hl : s.life i = l at hlife
  cases hlife with
  | same => exact Or.inl rfl
  | sent => exact Or.inr ⟨rfl, allocated_of_pending hl⟩

theorem Conn.step {s s' : State} {a : Act} {connected : Finset UInt32} (hinv : Inv s)
    (h : Conn connected s) (hstep : step args s a = some s')
    (hdisconnect : ∀ unit, a = .disconnect unit → connected = {unit})
    (henqueue : ∀ i tk, a = .enqueue i 0 → s.pc i = .allocated tk → tk.unit ∈ connected) :
    Conn (a.units connected) s' := by
  have hrule := step_rule hstep
  by_cases hconn : ∃ unit, a = .connect unit
  · rcases hconn with ⟨unit, rfl⟩
    cases hstep
    refine ⟨?_, ?_, ?_⟩
    · exact ⟨fun _ => ⟨unit, Finset.mem_insert_self unit connected⟩, fun _ => rfl⟩
    · exact fun _ => Finset.mem_insert_self unit connected
    · intro i tk hpending
      exact Finset.mem_insert_of_mem (h.sent i tk hpending)
  by_cases hdisc : ∃ unit, a = .disconnect unit
  · rcases hdisc with ⟨unit, rfl⟩
    cases hstep
    -- the one that leaves was the last one
    have hnone : Act.units connected (.disconnect unit) = ∅ := by
      rw [hdisconnect unit rfl, Act.units, Finset.erase_singleton]
    rw [hnone]
    refine ⟨?_, ?_, ?_⟩
    · exact iff_of_false (by simp [State.procfsCtlDisconnect, State.wakeup]) (by simp)
    · intro hflag
      cases hflag
    · intro i tk hpending
      -- nothing is in flight after a disconnect
      rcases hrule.inFlight hinv hpending with hbefore | ⟨heq, -⟩
      · rcases disconnect_pending hinv hbefore unit with ⟨len, bytes, hafter⟩
        rw [hafter] at hpending
        cases hpending
      · cases heq
  · have hunits : a.units connected = connected := by
      cases a with
      | connect unit => exact absurd ⟨unit, rfl⟩ hconn
      | disconnect unit => exact absurd ⟨unit, rfl⟩ hdisc
      | _ => rfl
    rcases hrule.connection (fun unit heq => hconn ⟨unit, heq⟩) (fun unit heq => hdisc ⟨unit, heq⟩)
      with ⟨hflag, hunit⟩
    rw [hunits]
    refine ⟨?_, ?_, ?_⟩
    · rw [hflag]
      exact h.flag
    · rw [hflag, hunit]
      exact h.unit
    · intro i tk hpending
      rcases hrule.inFlight hinv hpending with hbefore | ⟨heq, hpc⟩
      · exact h.sent i tk hbefore
      · exact henqueue i tk heq hpc

/-! ## Every run -/

theorem conn_of_run {acts bs : List Act} {t : State} (hkernel : KernelControl args acts)
    (hlast : LastToLeave acts) (hpre : bs <+: acts) (h : runFrom args bs = some t) :
    Conn (connectedUnits bs) t := by
  -- the induction is over the beginnings of the run, so that its hypotheses apply to each of them
  have hall : bs <+: acts → Conn (connectedUnits bs) t := by
    refine run_induction (P := fun bs t => bs <+: acts → Conn (connectedUnits bs) t) ?_ ?_ h
    · -- at first no unit is connected
      intro _
      refine ⟨by simp [initial, connectedUnits], by simp [initial], ?_⟩
      intro i tk hpending
      cases hpending
    · intro bs t a t' hrun hconn hstep hpre
      have hbs : bs <+: acts := (List.prefix_append bs [a]).trans hpre
      rw [connectedUnits_concat]
      refine (hconn hbs).step (inv_of_run hrun) hstep ?_ ?_
      · -- a unit that leaves is the last one
        rintro unit rfl
        exact hlast bs unit hpre
      · -- a request is sent to a unit that is connected
        rintro i tk rfl hpc
        exact hkernel.enqueues bs t i tk hpre hrun hpc
  exact hall hpre

/-- The flag and the unit number follow the connections, and a disconnect fails only its
own requests, in exactly the runs in which the unit that disconnects is the only one
that is connected. -/
theorem connection_tracked_iff {acts : List Act} {s : State} (hrun : runFrom args acts = some s)
    (hkernel : KernelControl args acts) : Tracked args acts ↔ LastToLeave acts := by
  constructor
  · intro htracked bs unit hpre
    rcases run_of_isPrefix hrun hpre with ⟨t, ht⟩
    have hcleared : t.gCtlConnected = false := by
      rcases run_concat.mp ht with ⟨t₀, -, hstep⟩
      cases hstep
      rfl
    -- the flag is cleared, so nobody may be left
    have hempty : (connectedUnits bs).erase unit = ∅ := by
      rw [← Finset.not_nonempty_iff_eq_empty]
      intro hsome
      have hflag := (htracked.flag _ t hpre ht).mpr (by rwa [connectedUnits_concat])
      rw [hcleared] at hflag
      cases hflag
    rw [← Finset.insert_erase (hkernel.disconnects bs unit hpre), hempty]
    rfl
  · intro hlast
    refine ⟨?_, ?_, ?_⟩
    · intro bs t hpre ht
      exact (conn_of_run hkernel hlast hpre ht).flag
    · intro bs t hpre ht
      exact (conn_of_run hkernel hlast hpre ht).unit
    · intro bs t unit i tk hpre ht hpending _
      have hconn := conn_of_run hkernel hlast ((List.prefix_append bs _).trans hpre) ht
      have hmem := hconn.sent i tk hpending
      rw [hlast bs unit hpre] at hmem
      exact Finset.mem_singleton.mp hmem

/-! Both conditions can be checked step by step on a given run. -/

/-- The kernel lets this step happen after `bs`. -/
def kernelAllows (args : ℕ → Args) (bs : List Act) : Act → Bool
  | .disconnect unit => decide (unit ∈ connectedUnits bs)
  | .enqueue i _ => (runFrom args bs).all fun t =>
      (t.pc i).ticket.all fun tk => decide (tk.unit ∈ connectedUnits bs)
  | _ => true

theorem kernelControl_of_check {acts : List Act}
    (h : ∀ n < acts.length, acts[n]?.all (kernelAllows args (acts.take n)) = true) :
    KernelControl args acts := by
  -- every action was looked at, after the actions before it
  have hall : ∀ bs a, bs ++ [a] <+: acts → kernelAllows args bs a = true := by
    intro bs a hpre
    rcases concat_isPrefix hpre with ⟨n, hn, rfl⟩
    have hcheck := h n (List.getElem?_eq_some_iff.mp hn).1
    rwa [hn] at hcheck
  constructor
  · intro bs unit hpre
    exact of_decide_eq_true (hall bs _ hpre)
  · intro bs t i tk hpre ht hpc
    have hcheck := hall bs _ hpre
    simp only [kernelAllows, ht, hpc, Option.all_some, Pc.ticket] at hcheck
    exact of_decide_eq_true hcheck

/-- Whoever disconnects in this step is alone. -/
def leavesAlone (connected : Finset UInt32) : Act → Bool
  | .disconnect unit => decide (connected = {unit})
  | _ => true

theorem lastToLeave_of_check {acts : List Act}
    (h : ∀ n < acts.length, acts[n]?.all (leavesAlone (connectedUnits (acts.take n))) = true) :
    LastToLeave acts := by
  intro bs unit hpre
  rcases concat_isPrefix hpre with ⟨n, hn, rfl⟩
  have hcheck := h n (List.getElem?_eq_some_iff.mp hn).1
  rw [hn] at hcheck
  exact of_decide_eq_true hcheck

/-- A daemon is asked something, disconnects and comes back. -/
def reconnect : List Act := [.connect 1] ++ callUntilAsleep 0 ++ [.disconnect 1, .connect 2]

theorem connection_tracked_reconnect : (∃ s, runFrom plainArgs reconnect = some s) ∧
    LastToLeave reconnect ∧ Tracked plainArgs reconnect := by
  have hkernel : KernelControl plainArgs reconnect := kernelControl_of_check (by decide)
  have hlast : LastToLeave reconnect := lastToLeave_of_check (by decide)
  exact ⟨⟨_, rfl⟩, hlast, (connection_tracked_iff rfl hkernel).mpr hlast⟩

/-- A second daemon connects and is asked something before the first one disconnects. -/
def overlap : List Act := [.connect 1, .connect 2] ++ callUntilAsleep 0 ++ [.disconnect 1]

/-- The flag is cleared although the second daemon is connected, and the request that was
sent to it fails. -/
theorem overlap_not_tracked : KernelControl plainArgs overlap ∧
    (∃ s, runFrom plainArgs overlap = some s ∧ s.gCtlConnected = false ∧
      2 ∈ connectedUnits overlap ∧
      ∃ tk len bytes, s.life 0 = .answered tk true enotconn len bytes ∧ tk.unit = 2) ∧
    ¬ Tracked plainArgs overlap := by
  refine ⟨kernelControl_of_check (by decide), ⟨_, rfl, rfl, by decide, _, _, _, rfl, rfl⟩, ?_⟩
  intro htracked
  have hflag := (htracked.flag overlap _ List.prefix_rfl rfl).mpr ⟨2, by decide⟩
  cases hflag

end ProcFS.Ctl
