import Mathlib.Data.List.Induction
import Mathlib.Order.Basic

/-!
# ProcFS.Lib.Runs — finite runs of a transition function

A system is a function `step : σ → α → Option σ`, undefined where an action is
not enabled. A run is a list of actions, each enabled when its turn comes. The
rules here turn facts about one step into facts about every state a run passes
through.

* `run_induction`: what holds of a state together with the actions that led to it.
* `run_invariant_of`: an invariant of the runs whose steps meet a condition.
* `run_invariant`: an invariant of all runs.
-/

namespace ProcFS

variable {σ α : Type}

/-- The state after a list of actions, if each of them was enabled. -/
def run (step : σ → α → Option σ) (s : σ) (as : List α) : Option σ :=
  as.foldlM step s

@[simp] theorem run_nil (step : σ → α → Option σ) (s : σ) : run step s [] = some s := rfl

variable {as bs : List α} {step : σ → α → Option σ} {s s' : σ}

/-- An action among others, and what comes before it. -/
theorem concat_isPrefix {a : α} (h : bs ++ [a] <+: as) : ∃ n, as[n]? = some a ∧ bs = as.take n := by
  obtain ⟨cs, rfl⟩ := h
  exact ⟨bs.length, by simp, by simp⟩

/-- The first action of a run. -/
theorem run_cons {a : α} {as : List α} :
    run step s (a :: as) = some s' ↔ ∃ t, step s a = some t ∧ run step t as = some s' := by
  simp only [run, List.foldlM_cons]
  exact Option.bind_eq_some_iff

/-- A run in two parts. -/
theorem run_append :
    run step s (as ++ bs) = some s' ↔ ∃ t, run step s as = some t ∧ run step t bs = some s' := by
  simp only [run, List.foldlM_append]
  exact Option.bind_eq_some_iff

/-- The last action of a run. -/
theorem run_concat {as : List α} {a : α} :
    run step s (as ++ [a]) = some s' ↔ ∃ t, run step s as = some t ∧ step t a = some s' := by
  rw [run_append]
  simp [run, List.foldlM_cons]

/-- A run passes through a state after each of its prefixes. -/
theorem run_of_isPrefix (h : run step s bs = some s') (hpre : as <+: bs) :
    ∃ t, run step s as = some t := by
  obtain ⟨cs, rfl⟩ := hpre
  induction cs using List.reverseRecOn generalizing s' with
  | nil => exact ⟨s', by simpa using h⟩
  | append_singleton cs c ih =>
    rw [← List.append_assoc] at h
    obtain ⟨t, ht, -⟩ := run_concat.mp h
    exact ih ht

/-- The rest of a run, from a state that it passes through. -/
theorem run_rest {s s' t : σ} (h : run step s bs = some s') (hpre : as <+: bs)
    (hmid : run step s as = some t) : ∃ cs, run step t cs = some s' := by
  obtain ⟨cs, rfl⟩ := hpre
  obtain ⟨u, hu, hcs⟩ := run_append.mp h
  rw [hmid] at hu
  exact ⟨cs, Option.some.inj hu ▸ hcs⟩

/-- The step of a run that follows one of its prefixes. -/
theorem run_next {s s' t : σ} {a : α} (h : run step s bs = some s') (hpre : as ++ [a] <+: bs)
    (hmid : run step s as = some t) :
    ∃ t', step t a = some t' ∧ run step s (as ++ [a]) = some t' := by
  obtain ⟨t', ht'⟩ := run_of_isPrefix h hpre
  obtain ⟨u, hu, hstep⟩ := run_concat.mp ht'
  rw [hmid] at hu
  exact ⟨t', Option.some.inj hu ▸ hstep, ht'⟩

/-- What holds of a state together with the actions that led to it: it holds at first,
and survives every further action. -/
theorem run_induction {as : List α} {P : List α → σ → Prop} (hinit : P [] s)
    (hstep : ∀ as t a t', run step s as = some t → P as t → step t a = some t' → P (as ++ [a]) t')
    (h : run step s as = some s') : P as s' := by
  induction as using List.reverseRecOn generalizing s' with
  | nil =>
    cases h
    exact hinit
  | append_singleton as a ih =>
    obtain ⟨t, ht, hlast⟩ := run_concat.mp h
    exact hstep as t a s' ht (ih ht) hlast

/-- A state predicate that holds initially and survives every step that meets a
condition holds at the end of every run whose steps all meet it. -/
theorem run_invariant_of {as : List α} {I : σ → Prop} {C : σ → α → Prop} (hinit : I s)
    (hstep : ∀ t a t', I t → C t a → step t a = some t' → I t')
    (hC : ∀ bs a t, bs ++ [a] <+: as → run step s bs = some t → C t a)
    (h : run step s as = some s') : I s' := by
  refine run_induction (P := fun as t => (∀ bs a u, bs ++ [a] <+: as → run step s bs = some u →
    C u a) → I t) (fun _ => hinit) ?_ h hC
  intro as t a t' ht ih hlast hC
  have hI : I t := ih fun bs b u hpre hu => hC bs b u (hpre.trans (List.prefix_append as [a])) hu
  exact hstep t a t' hI (hC as a t List.prefix_rfl ht) hlast

/-- A state predicate that holds initially and survives every step holds at the
end of every run. -/
theorem run_invariant {as : List α} {I : σ → Prop} (hinit : I s)
    (hstep : ∀ t a t', I t → step t a = some t' → I t') (h : run step s as = some s') : I s' :=
  run_invariant_of hinit (fun t a t' hI (_ : True) => hstep t a t' hI)
    (fun _ _ _ _ _ => trivial) h

end ProcFS
