import Mathlib.Data.List.Basic
import Mathlib.Logic.Function.Basic
import ProcFS.Lib.Runs

/-!
# ProcFS.Lib.Pins — names that are used again

Holders come and go under names, and the name of one that is gone is used again. An agent that has
nothing but a name asks for whoever holds it at that moment. It may also take a reference to the
holder, and until it is given back the holder stays, and so does what the name stands for.

What an agent does is a program (`Prog`). Of a program one wants to know what it can have been told
in the end, whatever the holders and the other agents do in between. An `Analysis` walks over the
program once, with a value that says what is known so far, and refuses some programs. It is right
about all of them.

* `Analysis.sound`: an accepted program never comes to something bad.
* `Analysis.complete`: a refused one can, if the holders change at the wrong moments.
* `Analysis.accepted_iff`: both together.
-/

namespace ProcFS.Pins

/-! ## Programs -/

/-- What an agent does with a name, `Prog true` while it has a reference: every reference is given
back, on every path. `use` is what it learns of the holder that it has a reference to, and `ask`
what it is told of the one that has the name, if it is told anything. `check` lets some holders
pass, and `test` is a test of any other kind. -/
inductive Prog : Bool → Type where
  | done : Prog false
  | find (missing : Prog false) (found : Prog true) : Prog false
  | rele (next : Prog false) : Prog true
  | check (denied allowed : Prog true) : Prog true
  | test (yes no : Prog true) : Prog true
  | use (next : Prog true) : Prog true
  | ask {held : Bool} (failed answered : Prog held) : Prog held

/-- Where an agent is, with the holder that it has a reference to. -/
inductive Pc where
  | free (p : Prog false)
  | held (t : ℕ) (p : Prog true)

/-- The reference of an agent. -/
def Pc.pin : Pc → Option ℕ
  | .free _ => none
  | .held t _ => some t

@[simp] theorem Pc.pin_free (p : Prog false) : (Pc.free p).pin = none := rfl

@[simp] theorem Pc.pin_held (t : ℕ) (p : Prog true) : (Pc.held t p).pin = some t := rfl

/-- The program that is left. -/
inductive Pc.At : Pc → {held : Bool} → Prog held → Prop where
  | free (p : Prog false) : At (.free p) p
  | held (t : ℕ) (p : Prog true) : At (.held t p) p

/-! ## The system -/

/-- An agent at work: its name and its program, the holders it was told of, and those that passed
a check. -/
structure Agent (ν : Type) where
  name : ν
  start : Prog false
  pc : Pc
  shown : List ℕ
  passed : List ℕ

/-- Who has which name, and whether it is about to go, the next holder, what each holder is like,
who has a reference to it, and the agents. Holders are numbered, and no number is used again. -/
structure State (ν ι α : Type) where
  table : ν → Option (ℕ × Bool)
  next : ℕ
  attr : ℕ → α
  refs : ℕ → List ι
  agent : ι → Agent ν

/-- Steps of the holders, and those of agent `i`. -/
inductive Act (ν ι α : Type) where
  | spawn (n : ν) (a : α)
  | leave (n : ν)
  | reap (n : ν)
  | change (n : ν) (a : α)
  | start (i : ι) (n : ν) (p : Prog false)
  | go (i : ι) (ok : Bool)

section

variable {ν ι α : Type}

/-- Nobody is there, and nobody is at work. -/
def State.init (n : ν) (a : α) : State ν ι α :=
  ⟨fun _ => none, 0, fun _ => a, fun _ => [], fun _ => ⟨n, .done, .free .done, [], []⟩⟩

def State.setRefs (s : State ν ι α) (t : ℕ) (l : List ι) : State ν ι α :=
  { s with refs := Function.update s.refs t l }

variable [DecidableEq ι]

def State.setAgent (s : State ν ι α) (i : ι) (a : Agent ν) : State ν ι α :=
  { s with agent := Function.update s.agent i a }

@[simp] theorem setAgent_self (s : State ν ι α) (i : ι) (a : Agent ν) :
    (s.setAgent i a).agent i = a := by
  simp [State.setAgent]

theorem setAgent_of_ne (s : State ν ι α) {i j : ι} (a : Agent ν) (h : j ≠ i) :
    (s.setAgent i a).agent j = s.agent j := by
  simp [State.setAgent, h]

@[simp] theorem setAgent_table (s : State ν ι α) (i : ι) (a : Agent ν) :
    (s.setAgent i a).table = s.table := rfl

@[simp] theorem setAgent_refs (s : State ν ι α) (i : ι) (a : Agent ν) :
    (s.setAgent i a).refs = s.refs := rfl

@[simp] theorem setAgent_next (s : State ν ι α) (i : ι) (a : Agent ν) :
    (s.setAgent i a).next = s.next := rfl

-- which holders an agent lets pass
variable (allows : ι → α → Bool)

/-- The step of an agent. `ok` is the outcome where it does not follow from the state. -/
def goAgent (s : State ν ι α) (i : ι) (ok : Bool) : Option (State ν ι α) :=
  let a := s.agent i
  match a.pc with
  | .free .done => none
  | .free (.find missing found) =>
    match s.table a.name with
    -- one that is about to go is not found
    | some (t, false) =>
      some ((s.setRefs t (i :: s.refs t)).setAgent i { a with pc := .held t found })
    | _ => some (s.setAgent i { a with pc := .free missing })
  | .free (.ask failed answered) =>
    if ok then
      (s.table a.name).map fun h =>
        s.setAgent i { a with pc := .free answered, shown := h.1 :: a.shown }
    else some (s.setAgent i { a with pc := .free failed })
  | .held t (.ask failed answered) =>
    if ok then
      (s.table a.name).map fun h =>
        s.setAgent i { a with pc := .held t answered, shown := h.1 :: a.shown }
    else some (s.setAgent i { a with pc := .held t failed })
  | .held t (.use next) => some (s.setAgent i { a with pc := .held t next, shown := t :: a.shown })
  | .held t (.test yes no) =>
    some (s.setAgent i { a with pc := .held t (if ok then yes else no) })
  | .held t (.check denied allowed) =>
    if allows i (s.attr t) then
      some (s.setAgent i { a with pc := .held t allowed, passed := t :: a.passed })
    else some (s.setAgent i { a with pc := .held t denied })
  | .held t (.rele next) =>
    some ((s.setRefs t ((s.refs t).filter (· ≠ i))).setAgent i { a with pc := .free next })

/-- All that a step of an agent can do. -/
inductive Go (s : State ν ι α) (i : ι) : State ν ι α → Prop where
  | found {t : ℕ} {missing : Prog false} {found : Prog true}
      (hpc : (s.agent i).pc = .free (.find missing found))
      (htable : s.table (s.agent i).name = some (t, false)) :
      Go s i ((s.setRefs t (i :: s.refs t)).setAgent i { s.agent i with pc := .held t found })
  | missing {missing : Prog false} {found : Prog true}
      (hpc : (s.agent i).pc = .free (.find missing found)) :
      Go s i (s.setAgent i { s.agent i with pc := .free missing })
  | told {h : ℕ × Bool} {failed answered : Prog false}
      (hpc : (s.agent i).pc = .free (.ask failed answered)) :
      Go s i (s.setAgent i
        { s.agent i with pc := .free answered, shown := h.1 :: (s.agent i).shown })
  | untold {failed answered : Prog false} (hpc : (s.agent i).pc = .free (.ask failed answered)) :
      Go s i (s.setAgent i { s.agent i with pc := .free failed })
  | heldTold {t : ℕ} {h : ℕ × Bool} {failed answered : Prog true}
      (hpc : (s.agent i).pc = .held t (.ask failed answered))
      (htable : s.table (s.agent i).name = some h) :
      Go s i (s.setAgent i
        { s.agent i with pc := .held t answered, shown := h.1 :: (s.agent i).shown })
  | heldUntold {t : ℕ} {failed answered : Prog true}
      (hpc : (s.agent i).pc = .held t (.ask failed answered)) :
      Go s i (s.setAgent i { s.agent i with pc := .held t failed })
  | used {t : ℕ} {next : Prog true} (hpc : (s.agent i).pc = .held t (.use next)) :
      Go s i (s.setAgent i
        { s.agent i with pc := .held t next, shown := t :: (s.agent i).shown })
  | tested {t : ℕ} {yes no : Prog true} (ok : Bool)
      (hpc : (s.agent i).pc = .held t (.test yes no)) :
      Go s i (s.setAgent i { s.agent i with pc := .held t (if ok then yes else no) })
  | passed {t : ℕ} {denied allowed : Prog true}
      (hpc : (s.agent i).pc = .held t (.check denied allowed)) :
      Go s i (s.setAgent i
        { s.agent i with pc := .held t allowed, passed := t :: (s.agent i).passed })
  | denied {t : ℕ} {denied allowed : Prog true}
      (hpc : (s.agent i).pc = .held t (.check denied allowed)) :
      Go s i (s.setAgent i { s.agent i with pc := .held t denied })
  | released {t : ℕ} {next : Prog false} (hpc : (s.agent i).pc = .held t (.rele next)) :
      Go s i ((s.setRefs t ((s.refs t).filter (· ≠ i))).setAgent i
        { s.agent i with pc := .free next })

variable {allows}

theorem go_cases {s s' : State ν ι α} {i : ι} {ok : Bool} (h : goAgent allows s i ok = some s') :
    Go s i s' := by
  simp only [goAgent] at h
  split at h
  · cases h
  · rename_i hpc
    split at h
    · rename_i htable
      cases h
      exact .found hpc htable
    · cases h
      exact .missing hpc
  · rename_i hpc
    split at h
    · rcases Option.map_eq_some_iff.mp h with ⟨_, -, rfl⟩
      exact .told hpc
    · cases h
      exact .untold hpc
  · rename_i hpc
    split at h
    · rcases Option.map_eq_some_iff.mp h with ⟨_, htable, rfl⟩
      exact .heldTold hpc htable
    · cases h
      exact .heldUntold hpc
  · rename_i hpc
    cases h
    exact .used hpc
  · rename_i hpc
    cases h
    exact .tested ok hpc
  · rename_i hpc
    split at h
    · cases h
      exact .passed hpc
    · cases h
      exact .denied hpc
  · rename_i hpc
    cases h
    exact .released hpc

variable [DecidableEq ν]

def State.setTable (s : State ν ι α) (n : ν) (h : Option (ℕ × Bool)) : State ν ι α :=
  { s with table := Function.update s.table n h }

variable (allows) in
def step (s : State ν ι α) : Act ν ι α → Option (State ν ι α)
  | .spawn n a =>
    match s.table n with
    | none =>
      some { s.setTable n (some (s.next, false)) with
        next := s.next + 1, attr := Function.update s.attr s.next a }
    | some _ => none
  | .leave n => (s.table n).map fun h => s.setTable n (some (h.1, true))
  | .reap n =>
    match s.table n with
    | some (t, true) => if (s.refs t).isEmpty then some (s.setTable n none) else none
    | _ => none
  | .change n a => (s.table n).map fun h => { s with attr := Function.update s.attr h.1 a }
  | .start i n p =>
    match (s.agent i).pc with
    | .free .done => some (s.setAgent i ⟨n, p, .free p, [], []⟩)
    | _ => none
  | .go i ok => goAgent allows s i ok

/-- The holders leave the agents alone, and a holder that someone has a reference to keeps its
name. -/
structure Moved (s s' : State ν ι α) : Prop where
  agent : s'.agent = s.agent
  refs : s'.refs = s.refs
  kept : ∀ n t, s.refs t ≠ [] → (∃ b, s.table n = some (t, b)) → ∃ b, s'.table n = some (t, b)

inductive Step (s : State ν ι α) : State ν ι α → Prop where
  | moved {s' : State ν ι α} (h : Moved s s') : Step s s'
  | started (i : ι) (n : ν) (p : Prog false) (hpc : (s.agent i).pc = .free .done) :
      Step s (s.setAgent i ⟨n, p, .free p, [], []⟩)
  | went (i : ι) {s' : State ν ι α} (h : Go s i s') : Step s s'

omit [DecidableEq ι] in
/-- A name gets something else to stand for. -/
theorem moved_setTable {s : State ν ι α} {n : ν} {h : Option (ℕ × Bool)}
    (hkept : ∀ t, s.refs t ≠ [] → (∃ b, s.table n = some (t, b)) → ∃ b, h = some (t, b)) :
    Moved s (s.setTable n h) := by
  refine ⟨rfl, rfl, fun m t href htable => ?_⟩
  by_cases hm : m = n
  · subst hm
    simpa [State.setTable] using hkept t href htable
  · simpa [State.setTable, hm] using htable

theorem step_cases {s s' : State ν ι α} {a : Act ν ι α} (h : step allows s a = some s') :
    Step s s' := by
  cases a with
  | spawn n a =>
    simp only [step] at h
    split at h
    · rename_i hnone
      cases h
      have hmoved : Moved s (s.setTable n (some (s.next, false))) := by
        refine moved_setTable fun t _ htable => ?_
        rcases htable with ⟨b, htable⟩
        rw [hnone] at htable
        cases htable
      exact .moved ⟨hmoved.agent, hmoved.refs, hmoved.kept⟩
    · cases h
  -- the name still stands for the holder
  | leave n =>
    rcases Option.map_eq_some_iff.mp h with ⟨h, htable, rfl⟩
    refine .moved (moved_setTable fun t _ ht => ?_)
    rcases ht with ⟨b, ht⟩
    rw [htable] at ht
    cases ht
    exact ⟨true, rfl⟩
  | reap n =>
    simp only [step] at h
    split at h
    · rename_i t htable
      split at h
      · rename_i hempty
        cases h
        refine .moved (moved_setTable fun t' href ht => ?_)
        rcases ht with ⟨b, ht⟩
        rw [htable] at ht
        cases ht
        -- nobody may have a reference to one that is reaped
        exact absurd (List.isEmpty_iff.mp hempty) href
      · cases h
    · cases h
  | change n a =>
    rcases Option.map_eq_some_iff.mp h with ⟨h, -, rfl⟩
    exact .moved ⟨rfl, rfl, fun _ _ _ ht => ht⟩
  | start i n p =>
    simp only [step] at h
    split at h
    · rename_i hpc
      cases h
      exact .started i n p hpc
    · cases h
  | go i ok => exact .went i (go_cases h)

/-- An agent with a reference is known to have it, and its name stands for that holder. -/
def Pinned (s : State ν ι α) : Prop :=
  ∀ i t, (s.agent i).pc.pin = some t →
    i ∈ s.refs t ∧ ∃ b, s.table (s.agent i).name = some (t, b)

end

/-! ## Analyses -/

/-- A walk over a program with a value for what is known. `find`, `rele`, `pass`, `use` and `ask`
say how the value changes, and `use` and `ask` may refuse: `use` is for what an agent learns while
it has a reference, `ask` for what it is told without one.

Of the reference of an agent, the holders that were shown to it and those that passed a check, a
value says two things: what is so in any case (`knows`), and what can be so, if no name ever stands
for the same holder twice unless a reference keeps it (`fears`). -/
structure Analysis (V : Type) where
  start : V
  find : V → V
  rele : V → V
  pass : V → V
  use : V → Option V
  ask : V → Option V
  bad : List ℕ → List ℕ → Prop
  knows : V → Option ℕ → List ℕ → List ℕ → Prop
  fears : V → Option ℕ → List ℕ → List ℕ → Prop
  knows_start : knows start none [] []
  knows_find {x sh pa} (t : ℕ) (h : knows x none sh pa) : knows (find x) (some t) sh pa
  knows_rele {x t sh pa} (h : knows x (some t) sh pa) : knows (rele x) none sh pa
  knows_pass {x t sh pa} (h : knows x (some t) sh pa) : knows (pass x) (some t) sh (t :: pa)
  knows_use {x y t sh pa} (hy : use x = some y) (h : knows x (some t) sh pa) :
    knows y (some t) (t :: sh) pa
  knows_ask {x y sh pa} (t : ℕ) (hy : ask x = some y) (h : knows x none sh pa) :
    knows y none (t :: sh) pa
  knows_fine {x pin sh pa} (h : knows x pin sh pa) : ¬ bad sh pa
  fears_start : fears start none [] []
  fears_find {x t sh pa} (ht : t ∉ sh ∧ t ∉ pa) (h : fears x none sh pa) :
    fears (find x) (some t) sh pa
  fears_rele {x t sh pa} (h : fears x (some t) sh pa) : fears (rele x) none sh pa
  fears_pass {x t sh pa} (h : fears x (some t) sh pa) : fears (pass x) (some t) sh (t :: pa)
  fears_use {x y t sh pa} (hy : use x = some y) (h : fears x (some t) sh pa) :
    fears y (some t) (t :: sh) pa
  fears_ask {x y t sh pa} (ht : t ∉ sh ∧ t ∉ pa) (hy : ask x = some y) (h : fears x none sh pa) :
    fears y none (t :: sh) pa
  bad_use {x t sh pa} (hx : use x = none) (h : fears x (some t) sh pa) : bad (t :: sh) pa
  bad_ask {x t sh pa} (ht : t ∉ sh ∧ t ∉ pa) (hx : ask x = none) (h : fears x none sh pa) :
    bad (t :: sh) pa

/-- Whether a program is accepted from a value on. -/
def Prog.accepted {V : Type} (o : Analysis V) : {held : Bool} → Prog held → V → Bool
  | _, .done, _ => true
  | _, .find missing found, x => missing.accepted o x && found.accepted o (o.find x)
  | _, .rele next, x => next.accepted o (o.rele x)
  | _, .check denied allowed, x => denied.accepted o x && allowed.accepted o (o.pass x)
  | _, .test yes no, x => yes.accepted o x && no.accepted o x
  | _, .use next, x => (o.use x).any fun y => next.accepted o y
  | true, .ask failed answered, x =>
    failed.accepted o x && (o.use x).any fun y => answered.accepted o y
  | false, .ask failed answered, x =>
    failed.accepted o x && (o.ask x).any fun y => answered.accepted o y

/-! ### Accepted programs -/

section

variable {V ν ι α : Type} [DecidableEq ι]

/-- What is known of an agent at work. -/
inductive Known (o : Analysis V) (a : Agent ν) : Prop where
  | free {p : Prog false} (x : V) (hpc : a.pc = .free p) (hacc : p.accepted o x = true)
      (h : o.knows x none a.shown a.passed) : Known o a
  | held {t : ℕ} {p : Prog true} (x : V) (hpc : a.pc = .held t p)
      (hacc : p.accepted o x = true) (h : o.knows x (some t) a.shown a.passed) : Known o a

variable {o : Analysis V} {a : Agent ν}

theorem Known.of_free (h : Known o a) {p : Prog false} (hpc : a.pc = .free p) :
    ∃ x, p.accepted o x = true ∧ o.knows x none a.shown a.passed := by
  cases h with
  | free x hpc' hacc h =>
    rw [hpc] at hpc'
    cases hpc'
    exact ⟨x, hacc, h⟩
  | held x hpc' hacc h =>
    rw [hpc] at hpc'
    cases hpc'

theorem Known.of_held (h : Known o a) {t : ℕ} {p : Prog true} (hpc : a.pc = .held t p) :
    ∃ x, p.accepted o x = true ∧ o.knows x (some t) a.shown a.passed := by
  cases h with
  | free x hpc' hacc h =>
    rw [hpc] at hpc'
    cases hpc'
  | held x hpc' hacc h =>
    rw [hpc] at hpc'
    cases hpc'
    exact ⟨x, hacc, h⟩

variable {s s' : State ν ι α} {i : ι}

/-- A step of an agent keeps what is known of it. What it is told while it has a reference is about
that holder: its name stands for no other. -/
theorem known_go (hpinned : Pinned s) (hknown : Known o (s.agent i)) (h : Go s i s') :
    Known o (s'.agent i) := by
  cases h with
  | found hpc htable =>
    rcases hknown.of_free hpc with ⟨x, hacc, hk⟩
    rw [Prog.accepted, Bool.and_eq_true] at hacc
    rw [setAgent_self]
    exact .held _ rfl hacc.2 (o.knows_find _ hk)
  | missing hpc =>
    rcases hknown.of_free hpc with ⟨x, hacc, hk⟩
    rw [Prog.accepted, Bool.and_eq_true] at hacc
    rw [setAgent_self]
    exact .free x rfl hacc.1 hk
  | told hpc =>
    rcases hknown.of_free hpc with ⟨x, hacc, hk⟩
    rw [Prog.accepted, Bool.and_eq_true, Option.any_eq_true] at hacc
    rcases hacc.2 with ⟨y, hy, hacc⟩
    rw [setAgent_self]
    exact .free y rfl hacc (o.knows_ask _ hy hk)
  | untold hpc =>
    rcases hknown.of_free hpc with ⟨x, hacc, hk⟩
    rw [Prog.accepted, Bool.and_eq_true] at hacc
    rw [setAgent_self]
    exact .free x rfl hacc.1 hk
  | heldTold hpc htable =>
    rcases hknown.of_held hpc with ⟨x, hacc, hk⟩
    rw [Prog.accepted, Bool.and_eq_true, Option.any_eq_true] at hacc
    rcases hacc.2 with ⟨y, hy, hacc⟩
    -- the name stands for the holder that the agent has a reference to
    rcases (hpinned i _ (by rw [hpc, Pc.pin_held])).2 with ⟨b, hsame⟩
    rw [htable] at hsame
    cases hsame
    rw [setAgent_self]
    exact .held y rfl hacc (o.knows_use hy hk)
  | heldUntold hpc =>
    rcases hknown.of_held hpc with ⟨x, hacc, hk⟩
    rw [Prog.accepted, Bool.and_eq_true] at hacc
    rw [setAgent_self]
    exact .held x rfl hacc.1 hk
  | used hpc =>
    rcases hknown.of_held hpc with ⟨x, hacc, hk⟩
    rw [Prog.accepted, Option.any_eq_true] at hacc
    rcases hacc with ⟨y, hy, hacc⟩
    rw [setAgent_self]
    exact .held y rfl hacc (o.knows_use hy hk)
  | tested ok hpc =>
    rcases hknown.of_held hpc with ⟨x, hacc, hk⟩
    rw [Prog.accepted, Bool.and_eq_true] at hacc
    rw [setAgent_self]
    refine .held x rfl ?_ hk
    cases ok
    · exact hacc.2
    · exact hacc.1
  | passed hpc =>
    rcases hknown.of_held hpc with ⟨x, hacc, hk⟩
    rw [Prog.accepted, Bool.and_eq_true] at hacc
    rw [setAgent_self]
    exact .held _ rfl hacc.2 (o.knows_pass hk)
  | denied hpc =>
    rcases hknown.of_held hpc with ⟨x, hacc, hk⟩
    rw [Prog.accepted, Bool.and_eq_true] at hacc
    rw [setAgent_self]
    exact .held x rfl hacc.1 hk
  | released hpc =>
    rcases hknown.of_held hpc with ⟨x, hacc, hk⟩
    rw [Prog.accepted] at hacc
    rw [setAgent_self]
    exact .free _ rfl hacc (o.knows_rele hk)

/-- A step of one agent leaves the others as they are, and the names. -/
theorem go_others (h : Go s i s') :
    (∀ j, j ≠ i → s'.agent j = s.agent j ∧ ∀ t, j ∈ s.refs t → j ∈ s'.refs t) ∧
      s'.table = s.table ∧ (s'.agent i).name = (s.agent i).name ∧
        (s'.agent i).start = (s.agent i).start := by
  cases h
  case found t _ _ _ _ =>
    refine ⟨fun j hj => ⟨setAgent_of_ne _ _ hj, fun u hu => ?_⟩, rfl, by simp, by simp⟩
    by_cases hut : u = t
    · subst hut
      simp [State.setRefs, hu]
    · simpa [State.setRefs, hut] using hu
  case released t _ _ =>
    refine ⟨fun j hj => ⟨setAgent_of_ne _ _ hj, fun u hu => ?_⟩, rfl, by simp, by simp⟩
    by_cases hut : u = t
    · subst hut
      simp [State.setRefs, hu, hj]
    · simpa [State.setRefs, hut] using hu
  all_goals exact ⟨fun j hj => ⟨setAgent_of_ne _ _ hj, fun _ hu => hu⟩, rfl, by simp, by simp⟩

/-- An agent has the reference it had, or none, or it has just taken one. -/
theorem go_pin {t : ℕ} (h : Go s i s') (hpin : (s'.agent i).pc.pin = some t) :
    ((s.agent i).pc.pin = some t ∧ s'.refs = s.refs) ∨
      (i ∈ s'.refs t ∧ ∃ b, s.table (s.agent i).name = some (t, b)) := by
  cases h
  case found u _ _ _ htable =>
    simp only [setAgent_self, Pc.pin_held, Option.some.injEq] at hpin
    subst hpin
    exact .inr ⟨by simp [State.setRefs], false, htable⟩
  case missing | told | untold | released => simp at hpin
  case heldTold hpc _ | heldUntold hpc | used hpc | tested hpc | passed hpc | denied hpc =>
    rw [setAgent_self, Pc.pin_held] at hpin
    exact .inl ⟨by rw [hpc, Pc.pin_held, hpin], rfl⟩

theorem pinned_go (hpinned : Pinned s) (h : Go s i s') : Pinned s' := by
  rcases go_others h with ⟨hothers, htable, hname, -⟩
  intro j t hpin
  rw [htable]
  by_cases hj : j = i
  · subst hj
    rw [hname]
    rcases go_pin h hpin with ⟨hold, hrefs⟩ | hnew
    · rw [hrefs]
      exact hpinned j t hold
    · exact hnew
  · rw [(hothers j hj).1] at hpin ⊢
    rcases hpinned j t hpin with ⟨href, hstands⟩
    exact ⟨(hothers j hj).2 t href, hstands⟩

theorem pinned_step (hpinned : Pinned s) (h : Step s s') : Pinned s' := by
  cases h with
  | moved hmoved =>
    intro i t hpin
    rw [hmoved.agent] at hpin ⊢
    rcases hpinned i t hpin with ⟨href, hstands⟩
    rw [hmoved.refs]
    exact ⟨href, hmoved.kept _ t (List.ne_nil_of_mem href) hstands⟩
  | started i n p hpc =>
    intro j t hpin
    by_cases hj : j = i
    · subst hj
      simp at hpin
    · rw [setAgent_of_ne _ _ hj] at hpin ⊢
      exact hpinned j t hpin
  | went i h => exact pinned_go hpinned h

/-- All agents that work on a program that is accepted. -/
def AllKnown (o : Analysis V) (s : State ν ι α) : Prop :=
  ∀ i, (s.agent i).start.accepted o o.start = true → Known o (s.agent i)

theorem allKnown_step (hpinned : Pinned s) (hall : AllKnown o s) (h : Step s s') :
    AllKnown o s' := by
  cases h with
  | moved hmoved =>
    intro i
    rw [hmoved.agent]
    exact hall i
  | started i n p hpc =>
    intro j hacc
    by_cases hj : j = i
    · subst hj
      rw [setAgent_self] at hacc ⊢
      exact .free o.start rfl hacc o.knows_start
    · rw [setAgent_of_ne _ _ hj] at hacc ⊢
      exact hall j hacc
  | went i h =>
    rcases go_others h with ⟨hothers, -, -, hstart⟩
    intro j hacc
    by_cases hj : j = i
    · subst hj
      rw [hstart] at hacc
      exact known_go hpinned (hall j hacc) h
    · rw [(hothers j hj).1] at hacc ⊢
      exact hall j hacc

variable [DecidableEq ν] {allows : ι → α → Bool}

/-- An agent that works on a program that is accepted never comes to something bad. -/
theorem Analysis.sound (o : Analysis V) {n : ν} {a : α} {acts : List (Act ν ι α)}
    {s : State ν ι α} (h : run (step allows) (State.init n a) acts = some s) {i : ι}
    (hacc : (s.agent i).start.accepted o o.start = true) :
    ¬ o.bad (s.agent i).shown (s.agent i).passed := by
  have hinv : Pinned s ∧ AllKnown o s := by
    refine run_invariant (I := fun s => Pinned s ∧ AllKnown o s) ?_ ?_ h
    · refine ⟨fun i t hpin => ?_, fun i _ => .free o.start rfl rfl o.knows_start⟩
      simp [State.init] at hpin
    · intro s act s' hs hstep
      exact ⟨pinned_step hs.1 (step_cases hstep), allKnown_step hs.1 hs.2 (step_cases hstep)⟩
  cases hinv.2 i hacc with
  | free x _ _ hk => exact o.knows_fine hk
  | held x _ _ hk => exact o.knows_fine hk

/-! ### Refused programs -/

/-- Agent `i` alone has references, and those to one that is not about to go. -/
structure Alone (s : State ν ι α) (i : ι) (n : ν) (p : Prog false) (pc : Pc) (sh pa : List ℕ) :
    Prop where
  agent : s.agent i = ⟨n, p, pc, sh, pa⟩
  refs : ∀ t, s.refs t = if pc.pin = some t then [i] else []
  stands : ∀ t, pc.pin = some t → s.table n = some (t, false)
  below : (∀ t ∈ sh, t < s.next) ∧ (∀ t ∈ pa, t < s.next) ∧
    ∀ t b, s.table n = some (t, b) → t < s.next

variable {n : ν} {p₀ : Prog false} {sh pa : List ℕ}

variable (allows) in
/-- A holder that nobody has a reference to may go. -/
theorem Alone.clear {p : Prog false} (h : Alone s i n p₀ (.free p) sh pa) :
    ∃ acts s', run (step allows) s acts = some s' ∧ Alone s' i n p₀ (.free p) sh pa ∧
      s'.table n = none := by
  cases htable : s.table n with
  | none => exact ⟨[], s, rfl, h, htable⟩
  | some b =>
    have hrefs : s.refs b.1 = [] := by
      rw [h.refs]
      rfl
    refine ⟨[.leave n, .reap n], s.setTable n none, ?_, ⟨h.agent, h.refs, ?_, ?_⟩, ?_⟩
    · simp only [run, List.foldlM_cons, List.foldlM_nil, step, htable]
      simp [State.setTable, hrefs]
    · intro t ht
      cases ht
    · refine ⟨h.below.1, h.below.2.1, fun t b ht => ?_⟩
      simp [State.setTable] at ht
    · simp [State.setTable]

variable (allows) in
/-- Another holder comes, that was not there before. -/
theorem Alone.renew {p : Prog false} (h : Alone s i n p₀ (.free p) sh pa) (a : α) :
    ∃ acts s' t, run (step allows) s acts = some s' ∧ Alone s' i n p₀ (.free p) sh pa ∧
      s'.table n = some (t, false) ∧ s'.attr t = a ∧ t ∉ sh ∧ t ∉ pa := by
  rcases h.clear allows with ⟨acts, s', hrun, h', hnone⟩
  have hspawn : step allows s' (.spawn n a) = some { s'.setTable n (some (s'.next, false)) with
      next := s'.next + 1, attr := Function.update s'.attr s'.next a } := by
    simp only [step, hnone]
  refine ⟨acts ++ [.spawn n a], _, s'.next, run_concat.mpr ⟨s', hrun, hspawn⟩, ?_, ?_, ?_,
    fun hmem => absurd (h'.below.1 _ hmem) (Nat.lt_irrefl _),
    fun hmem => absurd (h'.below.2.1 _ hmem) (Nat.lt_irrefl _)⟩
  · refine ⟨h'.agent, h'.refs, fun t ht => absurd ht (by simp), ?_⟩
    refine ⟨fun t ht => Nat.lt_succ_of_lt (h'.below.1 t ht),
      fun t ht => Nat.lt_succ_of_lt (h'.below.2.1 t ht), fun t b ht => ?_⟩
    simp only [State.setTable, Function.update_self, Option.some.injEq, Prod.mk.injEq] at ht
    -- the new holder has a number that nobody had
    show t < s'.next + 1
    omega
  · simp [State.setTable]
  · simp

omit [DecidableEq ν] in
/-- Nothing but the agent changes, which keeps its reference. -/
theorem Alone.set {pc pc' : Pc} {sh' pa' : List ℕ} (h : Alone s i n p₀ pc sh pa)
    (hpin : pc'.pin = pc.pin) (hsh : ∀ t ∈ sh', t ∈ sh ∨ ∃ b, s.table n = some (t, b))
    (hpa : ∀ t ∈ pa', t ∈ pa ∨ ∃ b, s.table n = some (t, b)) :
    Alone (s.setAgent i ⟨n, p₀, pc', sh', pa'⟩) i n p₀ pc' sh' pa' := by
  refine ⟨setAgent_self _ _ _, fun t => ?_, fun t ht => ?_, ?_, ?_, h.below.2.2⟩
  · rw [setAgent_refs, hpin]
    exact h.refs t
  · rw [setAgent_table]
    exact h.stands t (hpin ▸ ht)
  · intro t ht
    rcases hsh t ht with hold | ⟨b, hb⟩
    · exact h.below.1 t hold
    · exact h.below.2.2 t b hb
  · intro t ht
    rcases hpa t ht with hold | ⟨b, hb⟩
    · exact h.below.2.1 t hold
    · exact h.below.2.2 t b hb

omit [DecidableEq ν] in
/-- The agent goes on, and keeps what it knows. -/
theorem Alone.goOn {pc : Pc} (h : Alone s i n p₀ pc sh pa) (pc' : Pc) (hpin : pc'.pin = pc.pin) :
    Alone (s.setAgent i ⟨n, p₀, pc', sh, pa⟩) i n p₀ pc' sh pa :=
  h.set hpin (fun _ ht => .inl ht) fun _ ht => .inl ht

omit [DecidableEq ν] in
/-- The agent learns something of the one that has its name. -/
theorem Alone.learn {pc : Pc} {t : ℕ} {b : Bool} (h : Alone s i n p₀ pc sh pa) (pc' : Pc)
    (hpin : pc'.pin = pc.pin) (htable : s.table n = some (t, b)) :
    Alone (s.setAgent i ⟨n, p₀, pc', t :: sh, pa⟩) i n p₀ pc' (t :: sh) pa := by
  refine h.set hpin (fun u hu => ?_) fun u hu => .inl hu
  rcases List.mem_cons.mp hu with rfl | hu
  · exact .inr ⟨b, htable⟩
  · exact .inl hu

variable (allows) in
/-- The holder that the agent has a reference to changes. -/
theorem Alone.change {t : ℕ} {p : Prog true} (h : Alone s i n p₀ (.held t p) sh pa) (a : α) :
    ∃ s', step allows s (.change n a) = some s' ∧ Alone s' i n p₀ (.held t p) sh pa ∧
      s'.attr t = a := by
  refine ⟨{ s with attr := Function.update s.attr t a }, ?_, ⟨h.agent, h.refs, h.stands, h.below⟩,
    Function.update_self _ _ _⟩
  simp [step, h.stands t rfl]

variable (allows) in
/-- The agent takes a reference to the one that has its name. -/
theorem Alone.found {missing : Prog false} {found : Prog true} {t : ℕ}
    (h : Alone s i n p₀ (.free (.find missing found)) sh pa)
    (htable : s.table n = some (t, false)) :
    ∃ s', step allows s (.go i true) = some s' ∧ Alone s' i n p₀ (.held t found) sh pa := by
  refine ⟨(s.setRefs t (i :: s.refs t)).setAgent i ⟨n, p₀, .held t found, sh, pa⟩, ?_, ?_⟩
  · simp only [step, goAgent, h.agent, htable]
  · refine ⟨setAgent_self _ _ _, fun u => ?_, fun u hu => ?_, h.below⟩
    · have hnone : ∀ u, s.refs u = [] := fun u => by
        rw [h.refs]
        rfl
      by_cases hut : u = t
      · subst hut
        simp [State.setRefs, hnone]
      · have htu : t ≠ u := fun heq => hut heq.symm
        simp [State.setRefs, hnone, hut, htu]
    · rw [Pc.pin_held, Option.some.injEq] at hu
      subst hu
      exact htable

variable (allows) in
/-- The agent gives its reference back. -/
theorem Alone.released {next : Prog false} {t : ℕ}
    (h : Alone s i n p₀ (.held t (.rele next)) sh pa) :
    ∃ s', step allows s (.go i true) = some s' ∧ Alone s' i n p₀ (.free next) sh pa := by
  refine ⟨(s.setRefs t ((s.refs t).filter (· ≠ i))).setAgent i ⟨n, p₀, .free next, sh, pa⟩, ?_, ?_⟩
  · simp only [step, goAgent, h.agent]
  · refine ⟨setAgent_self _ _ _, fun u => ?_, fun u hu => absurd hu (by simp), h.below⟩
    by_cases hut : u = t
    · subst hut
      simp [State.setRefs, h.refs]
    · have htu : t ≠ u := fun heq => hut heq.symm
      simp [State.setRefs, h.refs, hut, htu]

variable (allows) in
/-- The agent does not find its name. -/
theorem Alone.missed {missing : Prog false} {found : Prog true}
    (h : Alone s i n p₀ (.free (.find missing found)) sh pa) :
    ∃ acts s', run (step allows) s acts = some s' ∧ Alone s' i n p₀ (.free missing) sh pa := by
  rcases h.clear allows with ⟨acts, s', hrun, h', hnone⟩
  have hgo : step allows s' (.go i true) =
      some (s'.setAgent i ⟨n, p₀, .free missing, sh, pa⟩) := by
    simp only [step, goAgent, h'.agent, hnone]
  exact ⟨acts ++ [.go i true], _, run_concat.mpr ⟨s', hrun, hgo⟩, h'.goOn _ rfl⟩

/-- The holder becomes one that passes the check, or one that does not. -/
theorem Alone.checked {denied allowed : Prog true} {t : ℕ}
    (h : Alone s i n p₀ (.held t (.check denied allowed)) sh pa) {a : α} {ok : Bool}
    (ha : allows i a = ok) :
    ∃ acts s', run (step allows) s acts = some s' ∧
      Alone s' i n p₀ (.held t (if ok then allowed else denied)) sh
        (if ok then t :: pa else pa) := by
  rcases h.change allows a with ⟨s', hstep, h', hattr⟩
  have hgo : step allows s' (.go i true) = some (s'.setAgent i
      ⟨n, p₀, .held t (if ok then allowed else denied), sh, if ok then t :: pa else pa⟩) := by
    cases ok <;> simp [step, goAgent, h'.agent, hattr, ha]
  refine ⟨_, _, run_cons.mpr ⟨s', hstep, run_cons.mpr ⟨_, hgo, run_nil _ _⟩⟩,
    h'.set rfl (fun t ht => .inl ht) fun u hu => ?_⟩
  cases ok with
  | false => exact .inl hu
  | true =>
    rcases List.mem_cons.mp hu with rfl | hu
    · exact .inr ⟨false, h'.stands u rfl⟩
    · exact .inl hu

variable (allows) in
/-- Agent `i` can come to something bad. -/
def Reaches (o : Analysis V) (s : State ν ι α) (i : ι) (p : Prog false) : Prop :=
  ∃ acts s', run (step allows) s acts = some s' ∧ (s'.agent i).start = p ∧
    o.bad (s'.agent i).shown (s'.agent i).passed

theorem Reaches.of_run {acts : List (Act ν ι α)}
    (hrun : run (step allows) s acts = some s') (h : Reaches allows o s' i p₀) :
    Reaches allows o s i p₀ := by
  rcases h with ⟨acts', t, hrun', hbad⟩
  exact ⟨acts ++ acts', t, run_append.mpr ⟨s', hrun, hrun'⟩, hbad⟩

theorem Reaches.of_step {a : Act ν ι α} (hstep : step allows s a = some s')
    (h : Reaches allows o s' i p₀) : Reaches allows o s i p₀ :=
  Reaches.of_run (run_cons.mpr ⟨s', hstep, run_nil _ s'⟩) h

theorem Alone.reaches {pc : Pc} (h : Alone s i n p₀ pc sh pa) (hbad : o.bad sh pa) :
    Reaches allows o s i p₀ := by
  refine ⟨[], s, rfl, ?_⟩
  rw [h.agent]
  exact ⟨rfl, hbad⟩

/-- The agent has learnt something: that is bad, or what is left is refused. -/
theorem Alone.reaches_of_any {pc : Pc} {v : Option V} {accepted : V → Bool}
    (h : Alone s i n p₀ pc sh pa) (hrefused : v.any accepted = false)
    (hbad : v = none → o.bad sh pa)
    (hnext : ∀ y, v = some y → accepted y = false → Reaches allows o s i p₀) :
    Reaches allows o s i p₀ := by
  cases hv : v with
  | none => exact h.reaches (hbad hv)
  | some y =>
    rw [hv, Option.any_some] at hrefused
    exact hnext y hv hrefused

/-- Where the analysis refuses, the agent comes to something bad, if a new holder has the name each
time that the agent has no reference. -/
theorem reaches_of_refused (hallows : ∃ a, allows i a = true) (hdenies : ∃ a, allows i a = false)
    {held : Bool} {p : Prog held} {x : V} {pc : Pc} (hat : pc.At p)
    (h : Alone s i n p₀ pc sh pa) (hfears : o.fears x pc.pin sh pa)
    (hrefused : p.accepted o x = false) : Reaches allows o s i p₀ := by
  induction p generalizing s x pc sh pa with
  | done => cases hrefused
  | find missing found ihmissing ihfound =>
    cases hat
    rw [Prog.accepted, Bool.and_eq_false_iff] at hrefused
    rcases hrefused with hrefused | hrefused
    · rcases h.missed allows with ⟨acts, s', hrun, h'⟩
      exact Reaches.of_run hrun (ihmissing (.free _) h' hfears hrefused)
    · rcases hallows with ⟨a, -⟩
      rcases h.renew allows a with ⟨acts, s', t, hrun, h', htable, -, hnew⟩
      rcases h'.found allows htable with ⟨s'', hstep, h''⟩
      refine Reaches.of_run hrun (Reaches.of_step hstep ?_)
      exact ihfound (.held t _) h'' (o.fears_find hnew hfears) hrefused
  | rele next ih =>
    cases hat with
    | held t =>
      rcases h.released allows with ⟨s', hstep, h'⟩
      exact Reaches.of_step hstep (ih (.free _) h' (o.fears_rele hfears) hrefused)
  | check denied allowed ihdenied ihallowed =>
    cases hat with
    | held t =>
      rw [Prog.accepted, Bool.and_eq_false_iff] at hrefused
      rcases hrefused with hrefused | hrefused
      · rcases hdenies with ⟨a, ha⟩
        rcases h.checked ha with ⟨acts, s', hrun, h'⟩
        exact Reaches.of_run hrun (ihdenied (.held t _) h' hfears hrefused)
      · rcases hallows with ⟨a, ha⟩
        rcases h.checked ha with ⟨acts, s', hrun, h'⟩
        exact Reaches.of_run hrun (ihallowed (.held t _) h' (o.fears_pass hfears) hrefused)
  | test yes no ihyes ihno =>
    cases hat with
    | held t =>
      have hgo : ∀ ok, step allows s (.go i ok) =
          some (s.setAgent i ⟨n, p₀, .held t (if ok then yes else no), sh, pa⟩) := by
        intro ok
        simp only [step, goAgent, h.agent]
      rw [Prog.accepted, Bool.and_eq_false_iff] at hrefused
      rcases hrefused with hrefused | hrefused
      · exact Reaches.of_step (hgo true) (ihyes (.held t _) (h.goOn _ rfl) hfears hrefused)
      · exact Reaches.of_step (hgo false) (ihno (.held t _) (h.goOn _ rfl) hfears hrefused)
  | use next ih =>
    cases hat with
    | held t =>
      have hgo : step allows s (.go i true) =
          some (s.setAgent i ⟨n, p₀, .held t next, t :: sh, pa⟩) := by
        simp only [step, goAgent, h.agent]
      have hset := h.learn (.held t next) rfl (h.stands t rfl)
      refine Reaches.of_step hgo (hset.reaches_of_any hrefused (o.bad_use · hfears) ?_)
      exact fun y hy => ih (.held t _) hset (o.fears_use hy hfears)
  | ask failed answered ihfailed ihanswered =>
    cases hat with
    | free =>
      rw [Prog.accepted, Bool.and_eq_false_iff] at hrefused
      rcases hrefused with hrefused | hrefused
      · have hgo : step allows s (.go i false) =
            some (s.setAgent i ⟨n, p₀, .free failed, sh, pa⟩) := by
          simp [step, goAgent, h.agent]
        exact Reaches.of_step hgo (ihfailed (.free _) (h.goOn _ rfl) hfears hrefused)
      · -- the answer is about a holder that the agent has not been told of
        rcases hallows with ⟨a, -⟩
        rcases h.renew allows a with ⟨acts, s', t, hrun, h', htable, -, hnew⟩
        have hgo : step allows s' (.go i true) =
            some (s'.setAgent i ⟨n, p₀, .free answered, t :: sh, pa⟩) := by
          simp [step, goAgent, h'.agent, htable]
        have hset := h'.learn (.free answered) rfl htable
        refine Reaches.of_run hrun (Reaches.of_step hgo ?_)
        refine hset.reaches_of_any hrefused (o.bad_ask hnew · hfears) ?_
        exact fun y hy => ihanswered (.free _) hset (o.fears_ask hnew hy hfears)
    | held t =>
      rw [Prog.accepted, Bool.and_eq_false_iff] at hrefused
      rcases hrefused with hrefused | hrefused
      · have hgo : step allows s (.go i false) =
            some (s.setAgent i ⟨n, p₀, .held t failed, sh, pa⟩) := by
          simp [step, goAgent, h.agent]
        exact Reaches.of_step hgo (ihfailed (.held t _) (h.goOn _ rfl) hfears hrefused)
      · -- and here it is about the one that the agent has a reference to
        have hgo : step allows s (.go i true) =
            some (s.setAgent i ⟨n, p₀, .held t answered, t :: sh, pa⟩) := by
          simp [step, goAgent, h.agent, h.stands t rfl]
        have hset := h.learn (.held t answered) rfl (h.stands t rfl)
        refine Reaches.of_step hgo (hset.reaches_of_any hrefused (o.bad_use · hfears) ?_)
        exact fun y hy => ihanswered (.held t _) hset (o.fears_use hy hfears)

/-- For every program that is refused, an agent that works on it can come to something bad. -/
theorem Analysis.complete (o : Analysis V) (n : ν) (a : α) {p : Prog false} {i : ι}
    (hallows : ∃ a, allows i a = true) (hdenies : ∃ a, allows i a = false)
    (hrefused : p.accepted o o.start = false) :
    ∃ acts s, run (step allows) (State.init n a) acts = some s ∧ (s.agent i).start = p ∧
      o.bad (s.agent i).shown (s.agent i).passed := by
  have hstart : step allows (State.init n a : State ν ι α) (.start i n p) =
      some ((State.init n a).setAgent i ⟨n, p, .free p, [], []⟩) := rfl
  have halone : Alone ((State.init n a : State ν ι α).setAgent i ⟨n, p, .free p, [], []⟩) i n p
      (.free p) [] [] := by
    refine ⟨setAgent_self _ _ _, fun _ => rfl, fun t ht => absurd ht (by simp), ?_⟩
    simp [State.init]
  exact Reaches.of_step hstart
    (reaches_of_refused hallows hdenies (.free p) halone o.fears_start hrefused)

/-- An analysis accepts the programs that never come to something bad. -/
theorem Analysis.accepted_iff (o : Analysis V) (n : ν) (a : α) (i : ι)
    (hallows : ∃ a, allows i a = true) (hdenies : ∃ a, allows i a = false) (p : Prog false) :
    p.accepted o o.start = true ↔
      ∀ acts s, run (step allows) (State.init n a) acts = some s → ∀ j, (s.agent j).start = p →
        ¬ o.bad (s.agent j).shown (s.agent j).passed := by
  constructor
  · intro hacc acts s hrun j hstart
    exact o.sound hrun (hstart ▸ hacc)
  · intro hfine
    by_contra hacc
    rcases o.complete n a hallows hdenies (Bool.eq_false_iff.mpr hacc) with
      ⟨acts, s, hrun, hstart, hbad⟩
    exact hfine acts s hrun i hstart hbad

end

/-! ### Two analyses -/

/-- Who was shown so far: nobody, the holder that the agent has a reference to, or another one. -/
inductive Seen where
  | nobody
  | same
  | other
deriving DecidableEq, Repr

/-- A second holder is not to be shown. -/
def mixing : Analysis Seen where
  start := .nobody
  find := id
  rele
    | .same => .other
    | x => x
  pass := id
  use
    | .other => none
    | _ => some .same
  ask
    | .nobody => some .other
    | _ => none
  bad sh _ := ∃ t ∈ sh, ∃ u ∈ sh, t ≠ u
  knows
    | .nobody, _, sh, _ => sh = []
    | .same, pin, sh, _ => ∃ t, pin = some t ∧ ∀ u ∈ sh, u = t
    | .other, _, sh, _ => ∃ t, ∀ u ∈ sh, u = t
  fears
    | .nobody, _, sh, _ => sh = []
    | .same, pin, sh, _ => sh ≠ [] ∧ pin.isSome = true
    | .other, pin, sh, _ => sh ≠ [] ∧ ∀ t, pin = some t → t ∉ sh
  knows_start := rfl
  knows_find {x sh pa} t h := by
    cases x with
    | nobody => exact h
    | same =>
      rcases h with ⟨_, hpin, -⟩
      cases hpin
    | other => exact h
  knows_rele {x t sh pa} h := by
    cases x with
    | nobody => exact h
    | same =>
      rcases h with ⟨u, -, hall⟩
      exact ⟨u, hall⟩
    | other => exact h
  knows_pass {x t sh pa} h := by
    cases x <;> exact h
  knows_use {x y t sh pa} hy h := by
    cases x with
    | nobody =>
      cases hy
      subst h
      exact ⟨t, rfl, by simp⟩
    | same =>
      cases hy
      rcases h with ⟨u, hpin, hall⟩
      cases hpin
      exact ⟨t, rfl, by simpa using hall⟩
    | other => cases hy
  knows_ask {x y sh pa} t hy h := by
    cases x with
    | nobody =>
      cases hy
      subst h
      exact ⟨t, by simp⟩
    | same | other => cases hy
  knows_fine {x pin sh pa} h := by
    have hone : ∃ t, ∀ u ∈ sh, u = t := by
      cases x with
      | nobody =>
        subst h
        exact ⟨0, by simp⟩
      | same =>
        rcases h with ⟨t, -, hall⟩
        exact ⟨t, hall⟩
      | other => exact h
    rintro ⟨u, hu, v, hv, hne⟩
    rcases hone with ⟨t, hall⟩
    exact hne ((hall u hu).trans (hall v hv).symm)
  fears_start := rfl
  fears_find {x t sh pa} ht h := by
    cases x with
    | nobody => exact h
    | same => exact ⟨h.1, rfl⟩
    | other =>
      refine ⟨h.1, fun u hu => ?_⟩
      cases hu
      exact ht.1
  fears_rele {x t sh pa} h := by
    cases x with
    | nobody => exact h
    | same => exact ⟨h.1, fun u hu => absurd hu (by simp)⟩
    | other => exact ⟨h.1, fun u hu => absurd hu (by simp)⟩
  fears_pass {x t sh pa} h := by
    cases x <;> exact h
  fears_use {x y t sh pa} hy h := by
    cases x with
    | nobody | same =>
      cases hy
      exact ⟨List.cons_ne_nil _ _, rfl⟩
    | other => cases hy
  fears_ask {x y t sh pa} ht hy h := by
    cases x with
    | nobody =>
      cases hy
      exact ⟨List.cons_ne_nil _ _, fun u hu => absurd hu (by simp)⟩
    | same | other => cases hy
  bad_use {x t sh pa} hx h := by
    cases x with
    | nobody | same => cases hx
    | other =>
      rcases List.exists_mem_of_ne_nil _ h.1 with ⟨u, hu⟩
      refine ⟨t, List.mem_cons_self, u, List.mem_cons_of_mem _ hu, ?_⟩
      rintro rfl
      exact h.2 t rfl hu
  bad_ask {x t sh pa} ht hx h := by
    have hne : sh ≠ [] := by
      cases x with
      | nobody => cases hx
      | same | other => exact h.1
    rcases List.exists_mem_of_ne_nil _ hne with ⟨u, hu⟩
    refine ⟨t, List.mem_cons_self, u, List.mem_cons_of_mem _ hu, ?_⟩
    rintro rfl
    exact ht.1 hu

@[simp] theorem mixing_start : mixing.start = .nobody := rfl

@[simp] theorem mixing_find (x : Seen) : mixing.find x = x := rfl

@[simp] theorem mixing_pass (x : Seen) : mixing.pass x = x := rfl

@[simp] theorem mixing_rele_nobody : mixing.rele .nobody = .nobody := rfl

@[simp] theorem mixing_rele_same : mixing.rele .same = .other := rfl

@[simp] theorem mixing_use_nobody : mixing.use .nobody = some .same := rfl

@[simp] theorem mixing_use_same : mixing.use .same = some .same := rfl

@[simp] theorem mixing_use_other : mixing.use .other = none := rfl

@[simp] theorem mixing_ask_nobody : mixing.ask .nobody = some .other := rfl

@[simp] theorem mixing_ask_other : mixing.ask .other = none := rfl

/-- A holder that did not pass a check is not to be shown. The value says whether the one that the
agent has a reference to has passed since. -/
def vetting : Analysis Bool where
  start := false
  find _ := false
  rele _ := false
  pass _ := true
  use x := if x then some true else none
  ask _ := none
  bad sh pa := ∃ t ∈ sh, t ∉ pa
  knows x pin sh pa := (x = true → ∃ t, pin = some t ∧ t ∈ pa) ∧ ∀ t ∈ sh, t ∈ pa
  fears x pin _ pa := x = false → ∀ t, pin = some t → t ∉ pa
  knows_start := by simp
  knows_find {x sh pa} t h := ⟨by simp, h.2⟩
  knows_rele {x t sh pa} h := ⟨by simp, h.2⟩
  knows_pass {x t sh pa} h :=
    ⟨fun _ => ⟨t, rfl, List.mem_cons_self⟩, fun u hu => List.mem_cons_of_mem _ (h.2 u hu)⟩
  knows_use {x y t sh pa} hy h := by
    cases x with
    | false => cases hy
    | true =>
      cases hy
      rcases h.1 rfl with ⟨u, hpin, hu⟩
      cases hpin
      refine ⟨h.1, fun v hv => ?_⟩
      rcases List.mem_cons.mp hv with rfl | hv
      · exact hu
      · exact h.2 v hv
  knows_ask {x y sh pa} t hy h := by cases hy
  knows_fine {x pin sh pa} h := by
    rintro ⟨t, ht, hnot⟩
    exact hnot (h.2 t ht)
  fears_start := by simp
  fears_find {x t sh pa} ht h := by
    rintro - u hu
    cases hu
    exact ht.2
  fears_rele {x t sh pa} h := by simp
  fears_pass {x t sh pa} h := by simp
  fears_use {x y t sh pa} hy h := by
    cases x with
    | false => cases hy
    | true =>
      cases hy
      simp
  fears_ask {x y t sh pa} ht hy h := by cases hy
  bad_use {x t sh pa} hx h := by
    cases x with
    | false => exact ⟨t, List.mem_cons_self, h rfl t rfl⟩
    | true => cases hx
  bad_ask {x t sh pa} ht hx h := ⟨t, List.mem_cons_self, ht.2⟩

@[simp] theorem vetting_start : vetting.start = false := rfl

@[simp] theorem vetting_find (x : Bool) : vetting.find x = false := rfl

@[simp] theorem vetting_pass (x : Bool) : vetting.pass x = true := rfl

@[simp] theorem vetting_rele (x : Bool) : vetting.rele x = false := rfl

@[simp] theorem vetting_use_true : vetting.use true = some true := rfl

@[simp] theorem vetting_use_false : vetting.use false = none := rfl

@[simp] theorem vetting_ask (x : Bool) : vetting.ask x = none := rfl

end ProcFS.Pins
