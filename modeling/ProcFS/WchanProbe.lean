import Mathlib.Algebra.Ring.Int.Defs
import Mathlib.Logic.Function.Basic
import ProcFS.Lib.Runs

/-!
# ProcFS.WchanProbe — finding the continuation in a thread

The extension does not know where in a `struct thread` the continuation is. The first reader of a
`wchan` finds out: it starts a thread that goes to sleep with a continuation of the extension, and
looks for the pointer in that thread. Other readers come at any time. One of them makes the
search, claimed with a compare-and-swap; the others go on without the answer if it is not there yet.

The model has the readers, each with the place it is at in `procfs_thread_continuation` and
`procfs_wchan_discover`, the thread that is looked at, and the two variables. A word of that thread
is read while the thread runs, so what is read depends on the moment.

* `step_cases`: all that a step can do.
* `Inv.step`: every step keeps the invariant.
* `probe_sound`: one search at most, and no reader ever uses a wrong offset.
* `probe_finds`: a search that is under way can end with the offset.
-/

namespace ProcFS.WchanProbe

/-! ## The states -/

/-- `PROCFS_WCHAN_SCAN_MAX` in words. -/
def scanWords : ℕ := 256

/-- How often the thread is looked at. -/
def maxTries : ℕ := 100000

/-- What the kernel was built with: the word of `struct thread` that has the continuation,
`ptrauth_strip`, and the pointer to `procfs_wchan_probe_cont` with and without its signature. -/
structure Layout where
  word : ℕ
  strip : UInt64 → UInt64
  signed : UInt64
  signed_ne : signed ≠ 0

def Layout.target (l : Layout) : UInt64 := l.strip l.signed

/-- The offset of the continuation. -/
def Layout.field (l : Layout) : ℤ := 8 * l.word

/-- A word that the search takes for the continuation. -/
def Layout.isTarget (l : Layout) (v : UInt64) : Bool := v != 0 && l.strip v == l.target

/-- The thread that is looked at: not there, on its way to `assert_wait`, behind it, asleep with
its continuation, woken, and gone. -/
inductive Helper where
  | absent
  | running
  | waiting
  | blocked
  | awake
  | gone
deriving DecidableEq, Repr

/-- Where a reader is. `tries` and `word` are the variables of the two loops, and `found` is the
offset that was found. -/
inductive Pc where
  | idle
  | entered
  | claiming
  | starting
  | testing (tries : ℕ)
  | scanning (tries word : ℕ)
  | waking (found : Option ℕ)
  | publishing (found : Option ℕ)
  | returned
  | refused
  | ready
  | used (off : ℤ)
deriving DecidableEq, Repr

/-- `g_wchan_init`, `g_continuation_off`, the thread, and the readers. `started` and `woken` are no
variables of the source: how many threads were started, and whether one was woken. -/
structure State where
  claimed : Bool
  off : ℤ
  started : ℕ
  helper : Helper
  woken : Bool
  pc : ℕ → Pc

def State.init : State := ⟨false, -1, 0, .absent, false, fun _ => .idle⟩

def State.setPc (s : State) (i : ℕ) (p : Pc) : State := { s with pc := Function.update s.pc i p }

@[simp] theorem setPc_self (s : State) (i : ℕ) (p : Pc) : (s.setPc i p).pc i = p := by
  simp [State.setPc]

theorem setPc_of_ne (s : State) {i j : ℕ} (p : Pc) (h : j ≠ i) : (s.setPc i p).pc j = s.pc j := by
  simp [State.setPc, h]

/-! ## The steps -/

/-- The steps of reader `i`, with what the kernel answers, and those of the thread. -/
inductive Act where
  | call (i : ℕ)
  | test (i : ℕ)
  | claim (i : ℕ)
  | start (i : ℕ) (ok : Bool)
  | probe (i : ℕ) (mapped : Bool)
  | look (i : ℕ) (v : UInt64)
  | wake (i : ℕ)
  | publish (i : ℕ)
  | check (i : ℕ)
  | use (i : ℕ)
  | assertWait
  | block
  | exit
deriving DecidableEq, Repr

/-- `thread_wakeup_prim` wakes the thread if it waits, and does nothing otherwise. -/
def Helper.wakeUp : Helper → Helper
  | .waiting | .blocked => .awake
  | h => h

/-- The pointer is in the thread while it sleeps with its continuation, and nowhere else. -/
def Layout.shows (l : Layout) (h : Helper) (word : ℕ) (v : UInt64) : Bool :=
  l.isTarget v == (word == l.word && h == .blocked)

/-- A reader that is not inside of a call. -/
def Pc.outside : Pc → Bool
  | .idle | .refused | .ready | .used _ => true
  | _ => false

/-- After a word that was not the continuation. -/
def Pc.nextWord (tries word : ℕ) : Pc :=
  if word + 1 < scanWords then .scanning tries (word + 1) else .testing (tries + 1)

def step (l : Layout) (s : State) : Act → Option State
  | .call i => if (s.pc i).outside then some (s.setPc i .entered) else none
  -- `if (g_continuation_off != -1)`
  | .test i =>
    if s.pc i = .entered then some (s.setPc i (if s.off = -1 then .claiming else .returned))
    else none
  -- `OSCompareAndSwap(0, 1, &g_wchan_init)`
  | .claim i =>
    if s.pc i = .claiming then
      if s.claimed then some (s.setPc i .returned)
      else some ({ s with claimed := true }.setPc i .starting)
    else none
  | .start i ok =>
    if s.pc i = .starting then
      if ok then
        some ({ s with helper := .running, started := s.started + 1 }.setPc i (.testing 0))
      else some ({ s with off := -2 }.setPc i .returned)
    else none
  | .probe i mapped =>
    match s.pc i with
    | .testing tries =>
      if tries < maxTries then
        some (s.setPc i (if mapped then .scanning tries 0 else .testing (tries + 1)))
      else some (s.setPc i (.waking none))
    | _ => none
  | .look i v =>
    match s.pc i with
    | .scanning tries word =>
      if l.shows s.helper word v then
        some (s.setPc i (if l.isTarget v then .waking (some (8 * word)) else .nextWord tries word))
      else none
    | _ => none
  | .wake i =>
    match s.pc i with
    | .waking found =>
      some ({ s with helper := s.helper.wakeUp, woken := true }.setPc i (.publishing found))
    | _ => none
  -- `g_continuation_off = (found >= 0) ? found : -2`
  | .publish i =>
    match s.pc i with
    | .publishing found =>
      some ({ s with off := found.elim (-2) fun n : ℕ => (n : ℤ) }.setPc i .returned)
    | _ => none
  -- `if (g_continuation_off < 0)`
  | .check i =>
    if s.pc i = .returned then some (s.setPc i (if s.off < 0 then .refused else .ready)) else none
  -- the variable is read again for each thread
  | .use i =>
    match s.pc i with
    | .ready | .used _ => some (s.setPc i (.used s.off))
    | _ => none
  | .assertWait => if s.helper = .running then some { s with helper := .waiting } else none
  | .block => if s.helper = .waiting then some { s with helper := .blocked } else none
  | .exit => if s.helper = .awake then some { s with helper := .gone } else none

def runFrom (l : Layout) (acts : List Act) : Option State := run (step l) State.init acts

/-! ## What a step does -/

/-- A reader that goes on with the offset. -/
def Pc.knows : Pc → Bool
  | .ready | .used _ => true
  | _ => false

inductive Step (l : Layout) (s : State) : Act → State → Prop where
  | call {i : ℕ} (hout : (s.pc i).outside = true) : Step l s (.call i) (s.setPc i .entered)
  | testOpen {i : ℕ} (hpc : s.pc i = .entered) (hoff : s.off = -1) :
      Step l s (.test i) (s.setPc i .claiming)
  | testOver {i : ℕ} (hpc : s.pc i = .entered) (hoff : s.off ≠ -1) :
      Step l s (.test i) (s.setPc i .returned)
  | claimLost {i : ℕ} (hpc : s.pc i = .claiming) (hclaimed : s.claimed = true) :
      Step l s (.claim i) (s.setPc i .returned)
  | claimWon {i : ℕ} (hpc : s.pc i = .claiming) (hclaimed : s.claimed = false) :
      Step l s (.claim i) ({ s with claimed := true }.setPc i .starting)
  | started {i : ℕ} (hpc : s.pc i = .starting) :
      Step l s (.start i true)
        ({ s with helper := .running, started := s.started + 1 }.setPc i (.testing 0))
  | notStarted {i : ℕ} (hpc : s.pc i = .starting) :
      Step l s (.start i false) ({ s with off := -2 }.setPc i .returned)
  | mapped {i tries : ℕ} (hpc : s.pc i = .testing tries) (htries : tries < maxTries) :
      Step l s (.probe i true) (s.setPc i (.scanning tries 0))
  | unmapped {i tries : ℕ} (hpc : s.pc i = .testing tries) (htries : tries < maxTries) :
      Step l s (.probe i false) (s.setPc i (.testing (tries + 1)))
  | gaveUp {i tries : ℕ} {mapped : Bool} (hpc : s.pc i = .testing tries)
      (htries : maxTries ≤ tries) : Step l s (.probe i mapped) (s.setPc i (.waking none))
  | found {i tries word : ℕ} {v : UInt64} (hpc : s.pc i = .scanning tries word)
      (hshows : l.shows s.helper word v = true) (htarget : l.isTarget v = true) :
      Step l s (.look i v) (s.setPc i (.waking (some (8 * word))))
  | other {i tries word : ℕ} {v : UInt64} (hpc : s.pc i = .scanning tries word)
      (hshows : l.shows s.helper word v = true) (htarget : l.isTarget v = false) :
      Step l s (.look i v) (s.setPc i (.nextWord tries word))
  | wake {i : ℕ} {found : Option ℕ} (hpc : s.pc i = .waking found) :
      Step l s (.wake i)
        ({ s with helper := s.helper.wakeUp, woken := true }.setPc i (.publishing found))
  | publish {i : ℕ} {found : Option ℕ} (hpc : s.pc i = .publishing found) :
      Step l s (.publish i)
        ({ s with off := found.elim (-2) fun n : ℕ => (n : ℤ) }.setPc i .returned)
  | refused {i : ℕ} (hpc : s.pc i = .returned) (hoff : s.off < 0) :
      Step l s (.check i) (s.setPc i .refused)
  | ready {i : ℕ} (hpc : s.pc i = .returned) (hoff : 0 ≤ s.off) :
      Step l s (.check i) (s.setPc i .ready)
  | use {i : ℕ} (hpc : (s.pc i).knows = true) : Step l s (.use i) (s.setPc i (.used s.off))
  | assertWait (hh : s.helper = .running) : Step l s .assertWait { s with helper := .waiting }
  | block (hh : s.helper = .waiting) : Step l s .block { s with helper := .blocked }
  | exit (hh : s.helper = .awake) : Step l s .exit { s with helper := .gone }

theorem step_cases {l : Layout} {s s' : State} {a : Act} (h : step l s a = some s') :
    Step l s a s' := by
  -- one case for each action; where a guard of `step` fails there is no next state
  cases a with
  | call i =>
    simp only [step] at h
    split_ifs at h with hout
    cases h
    exact .call hout
  | test i =>
    simp only [step] at h
    split_ifs at h with hpc hoff <;> cases h
    · exact .testOpen hpc hoff
    · exact .testOver hpc hoff
  | claim i =>
    simp only [step] at h
    split_ifs at h with hpc hclaimed <;> cases h
    · exact .claimLost hpc hclaimed
    · exact .claimWon hpc (Bool.not_eq_true _ ▸ hclaimed)
  | start i ok =>
    simp only [step] at h
    split_ifs at h with hpc hok <;> cases h
    · -- `kernel_thread_start` succeeded
      rw [hok]
      exact .started hpc
    · rw [Bool.not_eq_true] at hok
      rw [hok]
      exact .notStarted hpc
  -- the first test of the loop is on the tries, the second on `procfs_kptr_ok`
  | probe i mapped =>
    simp only [step] at h
    split at h
    · rename_i tries hpc
      split_ifs at h with htries hmapped <;> cases h
      · rw [hmapped]
        exact .mapped hpc htries
      · rw [Bool.not_eq_true] at hmapped
        rw [hmapped]
        exact .unmapped hpc htries
      · exact .gaveUp hpc (Nat.not_lt.mp htries)
    · cases h
  | look i v =>
    simp only [step] at h
    split at h
    · rename_i tries word hpc
      -- the word is that of the continuation, or the scan goes on
      split_ifs at h with hshows htarget <;> cases h
      · exact .found hpc hshows htarget
      · exact .other hpc hshows (Bool.not_eq_true _ ▸ htarget)
    · cases h
  | wake i =>
    simp only [step] at h
    split at h
    · rename_i found hpc
      cases h
      exact .wake hpc
    · cases h
  | publish i =>
    simp only [step] at h
    split at h
    · rename_i found hpc
      cases h
      exact .publish hpc
    · cases h
  | check i =>
    simp only [step] at h
    split_ifs at h with hpc hoff <;> cases h
    · exact .refused hpc hoff
    · exact .ready hpc (Int.not_lt.mp hoff)
  -- `used` comes from `ready`, and from `used` itself if the reader asks again
  | use i =>
    simp only [step] at h
    split at h
    · rename_i hpc
      cases h
      exact .use (by rw [hpc]; rfl)
    · rename_i hpc
      cases h
      exact .use (by rw [hpc]; rfl)
    · cases h
  | assertWait =>
    simp only [step] at h
    split_ifs at h with hh
    cases h
    exact .assertWait hh
  | block =>
    simp only [step] at h
    split_ifs at h with hh
    cases h
    exact .block hh
  | exit =>
    simp only [step] at h
    split_ifs at h with hh
    cases h
    exact .exit hh

/-! ## The search -/

/-- The reader that makes the search. -/
def Pc.owns : Pc → Bool
  | .starting | .testing _ | .scanning _ _ | .waking _ | .publishing _ => true
  | _ => false

/-- The thread has not been woken and may yet go to sleep. -/
def Helper.asleep : Helper → Bool
  | .running | .waiting | .blocked => true
  | _ => false

/-- The thread is on its way out. -/
def Helper.leaves : Helper → Bool
  | .awake | .gone => true
  | _ => false

/-- What the search knows of the thread at each place. -/
inductive Fits (l : Layout) : Pc → ℕ → Helper → Bool → Prop where
  | starting : Fits l .starting 0 .absent false
  | testing {h : Helper} (tries : ℕ) (hh : h.asleep = true) : Fits l (.testing tries) 1 h false
  | scanning {h : Helper} (tries word : ℕ) (hh : h.asleep = true) :
      Fits l (.scanning tries word) 1 h false
  | gaveUp {h : Helper} (hh : h.asleep = true) : Fits l (.waking none) 1 h false
  | found : Fits l (.waking (some (8 * l.word))) 1 .blocked false
  | publishGaveUp {h : Helper} (hh : h.asleep = true ∨ h.leaves = true) :
      Fits l (.publishing none) 1 h true
  | publishFound {h : Helper} (hh : h.leaves = true) :
      Fits l (.publishing (some (8 * l.word))) 1 h true

/-- How the search ends. -/
inductive Outcome (l : Layout) : ℤ → ℕ → Helper → Bool → Prop where
  | notStarted : Outcome l (-2) 0 .absent false
  | gaveUp {h : Helper} (hh : h.asleep = true ∨ h.leaves = true) : Outcome l (-2) 1 h true
  | found {h : Helper} (hh : h.leaves = true) : Outcome l l.field 1 h true

/-- The search has not begun, one reader is at it, or it is over. -/
inductive Phase (l : Layout) (s : State) : Prop where
  | unclaimed (hclaimed : s.claimed = false) (hoff : s.off = -1) (hstarted : s.started = 0)
      (hhelper : s.helper = .absent) (hwoken : s.woken = false)
      (hnone : ∀ i, (s.pc i).owns = false)
  | owned (i : ℕ) (hclaimed : s.claimed = true) (hoff : s.off = -1)
      (hfits : Fits l (s.pc i) s.started s.helper s.woken)
      (hothers : ∀ j, j ≠ i → (s.pc j).owns = false)
  | ended (hclaimed : s.claimed = true) (hout : Outcome l s.off s.started s.helper s.woken)
      (hnone : ∀ i, (s.pc i).owns = false)

/-- The invariant: a reader uses an offset only when it is known. -/
structure Inv (l : Layout) (s : State) : Prop where
  phase : Phase l s
  known : ∀ i, (s.pc i).knows = true → s.off = l.field
  used : ∀ i o, s.pc i = .used o → o = l.field

theorem field_nonneg (l : Layout) : 0 ≤ l.field := by
  rw [Layout.field]
  omega

variable {h : Helper} {p : Pc} {n : ℕ} {w : Bool}

theorem Fits.owns {l : Layout} (hf : Fits l p n h w) : p.owns = true := by
  cases hf <;> rfl

section

variable {l : Layout} {s s' : State} {i : ℕ}

/-- The reader that makes the search is the only one. -/
theorem Phase.owner (h : Phase l s) (hi : (s.pc i).owns = true) :
    s.claimed = true ∧ s.off = -1 ∧ Fits l (s.pc i) s.started s.helper s.woken ∧
      ∀ j, j ≠ i → (s.pc j).owns = false := by
  -- the other two phases have no reader at the search
  cases h with
  | unclaimed hclaimed hoff hstarted hhelper hwoken hnone =>
    rw [hnone i] at hi
    cases hi
  | owned k hclaimed hoff hfits hothers =>
    by_cases hk : i = k
    · rw [hk]
      exact ⟨hclaimed, hoff, hfits, hothers⟩
    · rw [hothers i hk] at hi
      cases hi
  | ended hclaimed hout hnone =>
    rw [hnone i] at hi
    cases hi

theorem Outcome.found_of_nonneg {off : ℤ} (ho : Outcome l off n h w) (hoff : 0 ≤ off) :
    off = l.field ∧ h.leaves = true := by
  cases ho with
  | notStarted | gaveUp => omega
  | found hh => exact ⟨rfl, hh⟩

/-- An offset is there only after the search. -/
theorem Phase.found (h : Phase l s) (hoff : 0 ≤ s.off) :
    s.off = l.field ∧ s.helper.leaves = true := by
  cases h with
  | unclaimed _ hneg | owned _ _ hneg => omega
  | ended _ hout _ => exact hout.found_of_nonneg hoff

/-- A reader that is not at the search moves, and nothing else happens. -/
theorem Phase.move (h : Phase l s) (hi : (s.pc i).owns = false) (hp : p.owns = false) :
    Phase l (s.setPc i p) := by
  have hnone : (∀ j, (s.pc j).owns = false) → ∀ j, ((s.setPc i p).pc j).owns = false := by
    intro hall j
    by_cases hj : j = i
    · rw [hj, setPc_self, hp]
    · rw [setPc_of_ne s p hj, hall j]
  cases h with
  | unclaimed hclaimed hoff hstarted hhelper hwoken hall =>
    exact .unclaimed hclaimed hoff hstarted hhelper hwoken (hnone hall)
  -- the reader at the search is another one, so it is where it was
  | owned k hclaimed hoff hfits hothers =>
    have hk : k ≠ i := by
      rintro rfl
      rw [hfits.owns] at hi
      cases hi
    refine .owned k hclaimed hoff ?_ ?_
    · rw [setPc_of_ne s p hk]
      exact hfits
    · intro j hj
      by_cases hji : j = i
      · rw [hji, setPc_self, hp]
      · rw [setPc_of_ne s p hji, hothers j hj]
  | ended hclaimed hout hall => exact .ended hclaimed hout (hnone hall)

/-- The reader at the search goes on with it. -/
theorem Phase.goOn (hclaimed : s.claimed = true) (hoff : s.off = -1)
    (hfits : Fits l p s.started s.helper s.woken) (hothers : ∀ j, j ≠ i → (s.pc j).owns = false) :
    Phase l (s.setPc i p) := by
  refine .owned i hclaimed hoff ?_ ?_
  · rw [setPc_self]
    exact hfits
  · intro j hj
    rw [setPc_of_ne s p hj, hothers j hj]

/-- It ends the search. -/
theorem Phase.finish (hp : p.owns = false) (hclaimed : s.claimed = true)
    (hout : Outcome l s.off s.started s.helper s.woken)
    (hothers : ∀ j, j ≠ i → (s.pc j).owns = false) : Phase l (s.setPc i p) := by
  refine .ended hclaimed hout ?_
  intro j
  by_cases hj : j = i
  · rw [hj, setPc_self, hp]
  · rw [setPc_of_ne s p hj, hothers j hj]

/-- The thread goes on by itself: to sleep or out. -/
def HelperMoves (h h' : Helper) : Prop :=
  (h.asleep = true ∧ h'.asleep = true ∧ h ≠ .blocked) ∨ (h.leaves = true ∧ h'.leaves = true)

theorem HelperMoves.fits {h h' : Helper} (hm : HelperMoves h h') (hf : Fits l p n h w) :
    Fits l p n h' w := by
  rcases hm with ⟨hold, hnew, hne⟩ | ⟨hold, hnew⟩
  · -- the thread falls asleep; before it is woken it may do so at any time
    cases hf with
    | starting => cases hold
    | testing tries => exact .testing tries hnew
    | scanning tries word => exact .scanning tries word hnew
    | gaveUp => exact .gaveUp hnew
    | found => exact absurd rfl hne
    | publishGaveUp => exact .publishGaveUp (Or.inl hnew)
    | publishFound hh => cases h <;> simp [Helper.asleep, Helper.leaves] at hold hh
  · -- the thread leaves, which it does only after it was woken
    have hawake : h.asleep = false := by cases h <;> simp [Helper.leaves] at hold <;> rfl
    cases hf with
    | starting => cases hold
    | testing tries hh | scanning tries word hh | gaveUp hh =>
      rw [hawake] at hh
      cases hh
    | found => cases hold
    | publishGaveUp => exact .publishGaveUp (Or.inr hnew)
    | publishFound => exact .publishFound hnew

theorem HelperMoves.outcome {h h' : Helper} {off : ℤ} (hm : HelperMoves h h')
    (ho : Outcome l off n h w) : Outcome l off n h' w := by
  rcases hm with ⟨hold, hnew, hne⟩ | ⟨hold, hnew⟩
  · cases ho with
    | notStarted => cases hold
    | gaveUp => exact .gaveUp (Or.inl hnew)
    | found hh => cases h <;> simp [Helper.asleep, Helper.leaves] at hold hh
  · cases ho with
    | notStarted => cases hold
    | gaveUp => exact .gaveUp (Or.inr hnew)
    | found => exact .found hnew

theorem Phase.helper (h : Phase l s) {h' : Helper} (hm : HelperMoves s.helper h') :
    Phase l { s with helper := h' } := by
  cases h with
  | unclaimed hclaimed hoff hstarted hhelper hwoken hnone =>
    rw [hhelper] at hm
    rcases hm with ⟨hold, -⟩ | ⟨hold, -⟩ <;> cases hold
  | owned k hclaimed hoff hfits hothers =>
    exact .owned k hclaimed hoff (hm.fits hfits) hothers
  | ended hclaimed hout hnone => exact .ended hclaimed (hm.outcome hout) hnone

/-- A reader moves to a place where it has no offset. The variable keeps its value, or had none. -/
theorem Inv.moveTo {t : State} (h : Inv l s) (hphase : Phase l (t.setPc i p)) (hpc : t.pc = s.pc)
    (hp : p.knows = false) (hoff : t.off = s.off ∨ s.off = -1) : Inv l (t.setPc i p) := by
  -- whoever knows the offset in the new state is not the reader that moved
  have hother : ∀ j, ((t.setPc i p).pc j).knows = true → (t.setPc i p).pc j = s.pc j := by
    intro j hj
    by_cases hji : j = i
    · rw [hji, setPc_self, hp] at hj
      cases hj
    · rw [setPc_of_ne t p hji, hpc]
  refine ⟨hphase, ?_, ?_⟩
  · intro j hj
    rw [hother j hj] at hj
    have hknown := h.known j hj
    rcases hoff with heq | hnone
    · exact heq.trans hknown
    · -- nobody knew an offset while the variable had none
      have hnonneg := field_nonneg l
      omega
  · intro j o hj
    have hsame := hother j (by rw [hj]; rfl)
    exact h.used j o (hsame.symm.trans hj)

/-- A reader has the offset. -/
theorem Inv.know (h : Inv l s) (hi : (s.pc i).owns = false) (hp : p.knows = true)
    (hoff : s.off = l.field) (hused : ∀ o, p = .used o → o = l.field) : Inv l (s.setPc i p) := by
  refine ⟨h.phase.move hi ?_, fun _ _ => hoff, ?_⟩
  · cases p <;> simp [Pc.knows] at hp <;> rfl
  · intro j o hj
    by_cases hji : j = i
    · rw [hji, setPc_self] at hj
      exact hused o hj
    · rw [setPc_of_ne s p hji] at hj
      exact h.used j o hj

theorem Inv.helper (h : Inv l s) {h' : Helper} (hm : HelperMoves s.helper h') :
    Inv l { s with helper := h' } := ⟨h.phase.helper hm, h.known, h.used⟩

end

/-! ## Every step keeps the invariant -/

section

variable {l : Layout} {s s' : State} {i : ℕ}

/-- The reader at the search goes on with it, and leaves the thread as its new place wants it. -/
theorem Inv.goOn {p q : Pc} {n' : ℕ} {h' : Helper} {w' : Bool} (h : Inv l s) (hpc : s.pc i = p)
    (howns : p.owns = true) (hq : q.knows = false)
    (hfits : Fits l p s.started s.helper s.woken → Fits l q n' h' w') :
    Inv l ({ s with started := n', helper := h', woken := w' }.setPc i q) := by
  rw [← hpc] at howns hfits
  rcases h.phase.owner howns with ⟨hclaimed, hoff, hold, hothers⟩
  exact h.moveTo (.goOn hclaimed hoff (hfits hold) hothers) rfl hq (Or.inl rfl)

/-- The reader at the search ends it. -/
theorem Inv.finish {p : Pc} {off : ℤ} (h : Inv l s) (hpc : s.pc i = p) (howns : p.owns = true)
    (hout : Fits l p s.started s.helper s.woken → Outcome l off s.started s.helper s.woken) :
    Inv l ({ s with off := off }.setPc i .returned) := by
  rw [← hpc] at howns hout
  rcases h.phase.owner howns with ⟨hclaimed, hoff, hold, hothers⟩
  exact h.moveTo (.finish rfl hclaimed (hout hold) hothers) rfl rfl (Or.inr hoff)

/-- The claim is won once: a reader that wins it finds nothing done yet. -/
theorem Inv.claimWon (h : Inv l s) (hclaimed : s.claimed = false) :
    Inv l ({ s with claimed := true }.setPc i .starting) := by
  refine h.moveTo ?_ rfl rfl (Or.inl rfl)
  cases h.phase with
  | unclaimed _ hoff hstarted hhelper hwoken hnone =>
    refine .goOn rfl hoff ?_ fun j _ => hnone j
    show Fits l .starting s.started s.helper s.woken
    rw [hstarted, hhelper, hwoken]
    exact .starting
  -- a phase in which the search is claimed already
  | owned _ hyes | ended hyes =>
    rw [hclaimed] at hyes
    cases hyes

theorem Fits.start (hf : Fits l .starting n h w) : Fits l (.testing 0) (n + 1) .running w := by
  cases hf
  exact .testing 0 rfl

theorem Fits.notStarted (hf : Fits l .starting n h w) : Outcome l (-2) n h w := by
  cases hf
  exact .notStarted

/-- The pointer is found only in the word of the continuation, in a thread that sleeps. -/
theorem shows_target {word : ℕ} {v : UInt64} (hshows : l.shows h word v = true)
    (htarget : l.isTarget v = true) : word = l.word ∧ h = .blocked := by
  rw [Layout.shows, htarget] at hshows
  simpa using hshows

/-- A thread that is woken leaves, unless it did not wait yet. -/
theorem wakeUp_asleep (hh : h.asleep = true) : h.wakeUp.asleep = true ∨ h.wakeUp.leaves = true := by
  cases h <;> simp [Helper.asleep] at hh <;> simp [Helper.wakeUp, Helper.asleep, Helper.leaves]

theorem Fits.wake {found : Option ℕ} (hf : Fits l (.waking found) n h w) :
    Fits l (.publishing found) n h.wakeUp true := by
  cases hf with
  | gaveUp hasleep => exact .publishGaveUp (wakeUp_asleep hasleep)
  | found => exact .publishFound rfl

theorem Fits.publish {found : Option ℕ} (hf : Fits l (.publishing found) n h w) :
    Outcome l (found.elim (-2) fun n : ℕ => (n : ℤ)) n h w := by
  -- the variable gets what the search has found, or -2
  cases hf with
  | publishGaveUp hleft => exact .gaveUp hleft
  | publishFound hleaves =>
    have hfield : ((8 * l.word : ℕ) : ℤ) = l.field := by
      rw [Layout.field]
      omega
    rw [Option.elim_some, hfield]
    exact .found hleaves

/-- The thread while it is looked at. -/
theorem Fits.asleep (hf : Fits l p n h w)
    (hp : (∃ tries, p = .testing tries) ∨ ∃ tries word, p = .scanning tries word) :
    n = 1 ∧ h.asleep = true ∧ w = false := by
  cases hf with
  | testing tries hh | scanning tries word hh => exact ⟨rfl, hh, rfl⟩
  | starting | gaveUp | found | publishGaveUp | publishFound =>
    rcases hp with ⟨_, hp⟩ | ⟨_, _, hp⟩ <;> cases hp

/-- The search goes on to a place that asks no more of the thread. -/
theorem Fits.look {p q : Pc} (hf : Fits l p n h w)
    (hp : (∃ tries, p = .testing tries) ∨ ∃ tries word, p = .scanning tries word)
    (hq : h.asleep = true → Fits l q 1 h false) : Fits l q n h w := by
  rcases hf.asleep hp with ⟨rfl, hasleep, rfl⟩
  exact hq hasleep

theorem Inv.step {a : Act} (h : Inv l s) (hs : step l s a = some s') : Inv l s' := by
  cases step_cases hs with
  -- a reader comes in, from outside or after its last call
  | @call i hout =>
    have howns : (s.pc i).owns = false := by
      cases hpc : s.pc i <;> simp [hpc, Pc.outside] at hout <;> rfl
    exact h.moveTo (h.phase.move howns rfl) rfl rfl (Or.inl rfl)
  -- a reader that is not at the search moves
  | testOpen hpc | testOver hpc | claimLost hpc | refused hpc =>
    exact h.moveTo (h.phase.move (by rw [hpc]; rfl) rfl) rfl rfl (Or.inl rfl)
  | claimWon _ hclaimed => exact h.claimWon hclaimed
  | started hpc => exact h.goOn hpc rfl rfl Fits.start
  | notStarted hpc => exact h.finish hpc rfl Fits.notStarted
  -- the reader at the search goes on
  | @mapped i tries hpc =>
    exact h.goOn hpc rfl rfl fun hf => hf.look (Or.inl ⟨tries, rfl⟩) (.scanning tries 0)
  | @unmapped i tries hpc =>
    exact h.goOn hpc rfl rfl fun hf => hf.look (Or.inl ⟨tries, rfl⟩) (.testing (tries + 1))
  | @gaveUp i tries mapped hpc =>
    exact h.goOn hpc rfl rfl fun hf => hf.look (Or.inl ⟨tries, rfl⟩) .gaveUp
  -- what shows the target is the word of the continuation, in a thread that sleeps
  | @found i tries word v hpc hshows htarget =>
    rcases shows_target hshows htarget with ⟨rfl, hblocked⟩
    refine h.goOn hpc rfl rfl fun hf => hf.look (Or.inr ⟨tries, l.word, rfl⟩) ?_
    rw [hblocked]
    exact fun _ => .found
  | @other i tries word v hpc hshows htarget =>
    rw [Pc.nextWord]
    split_ifs
    · exact h.goOn hpc rfl rfl fun hf =>
        hf.look (Or.inr ⟨tries, word, rfl⟩) (.scanning tries (word + 1))
    · exact h.goOn hpc rfl rfl fun hf =>
        hf.look (Or.inr ⟨tries, word, rfl⟩) (.testing (tries + 1))
  | wake hpc => exact h.goOn hpc rfl rfl Fits.wake
  | publish hpc => exact h.finish hpc rfl Fits.publish
  -- a reader finds the offset in the variable, and uses it
  | ready hpc hoff =>
    exact h.know (by rw [hpc]; rfl) rfl (h.phase.found hoff).1 fun o ho => by cases ho
  | @use i hpc =>
    have hoff := h.known i hpc
    refine h.know ?_ rfl hoff ?_
    · cases hp : s.pc i <;> simp [hp, Pc.knows] at hpc <;> rfl
    · intro o ho
      cases ho
      exact hoff
  -- the thread moves on its own
  | assertWait hh => exact h.helper (Or.inl (by rw [hh]; decide))
  | block hh => exact h.helper (Or.inl (by rw [hh]; decide))
  | exit hh => exact h.helper (Or.inr (by rw [hh]; decide))

theorem inv_init (l : Layout) : Inv l State.init := by
  refine ⟨.unclaimed rfl rfl rfl rfl rfl fun _ => rfl, ?_, ?_⟩
  · intro i h
    cases h
  · intro i o h
    cases h

theorem inv_of_run {acts : List Act} (h : runFrom l acts = some s) : Inv l s :=
  run_invariant (inv_init l) (fun _ _ _ hI hs => hI.step hs) h

end

/-! ## What stays so -/

/-- The thread was woken before it waited: nobody will wake it again. -/
def State.lost (s : State) : Prop := s.woken = true ∧ s.helper.asleep = true

/-- What a step does to the variable, and to a thread that was not woken in time. -/
structure Settled (s s' : State) : Prop where
  off : s.off ≠ -1 → s'.off = s.off
  woken : s.woken = true → s'.woken = true
  lost : s.lost → s'.lost

theorem Settled.refl (s : State) : Settled s s := ⟨fun _ => rfl, id, id⟩

theorem Settled.trans {s s' s'' : State} (h : Settled s s') (h' : Settled s' s'') :
    Settled s s'' := by
  refine ⟨fun hne => ?_, fun hw => h'.woken (h.woken hw), fun hl => h'.lost (h.lost hl)⟩
  have heq := h.off hne
  rw [← heq] at hne
  exact (h'.off hne).trans heq

section

variable {l : Layout} {s s' : State}

/-- Before the thread is woken. -/
theorem Fits.not_woken (hf : Fits l p n h w) (hp : p = .starting ∨ ∃ found, p = .waking found) :
    w = false := by
  cases hf with
  | starting | gaveUp | found => rfl
  | testing | scanning | publishGaveUp | publishFound =>
    rcases hp with hp | ⟨_, hp⟩ <;> cases hp

theorem settled_step {a : Act} (h : Inv l s) (hs : step l s a = some s') : Settled s s' := by
  -- before the thread is woken nothing is settled
  have hnew : ∀ i, (s.pc i = .starting ∨ ∃ found, s.pc i = .waking found) → ∀ t : State,
      Settled s t := by
    intro i hpc t
    have howns : (s.pc i).owns = true := by
      rcases hpc with hpc | ⟨_, hpc⟩ <;> rw [hpc] <;> rfl
    rcases h.phase.owner howns with ⟨-, hoff, hfits, -⟩
    have hwoken := hfits.not_woken hpc
    refine ⟨fun hne => absurd hoff hne, ?_, ?_⟩
    · rw [hwoken]
      intro hw
      cases hw
    · rintro ⟨hw, -⟩
      rw [hwoken] at hw
      cases hw
  have hmoves : ∀ h' : Helper, HelperMoves s.helper h' → Settled s { s with helper := h' } := by
    intro h' hm
    refine ⟨fun _ => rfl, id, ?_⟩
    rintro ⟨hw, hasleep⟩
    rcases hm with ⟨-, hstill, -⟩ | ⟨hleaves, -⟩
    · exact ⟨hw, hstill⟩
    · cases hh : s.helper <;> simp [hh, Helper.asleep, Helper.leaves] at hasleep hleaves
  cases step_cases hs with
  | started hpc | notStarted hpc => exact hnew _ (Or.inl hpc) _
  | wake hpc => exact hnew _ (Or.inr ⟨_, hpc⟩) _
  | @publish i found hpc =>
    have hoff := (h.phase.owner (show (s.pc i).owns = true by rw [hpc]; rfl)).2.1
    exact ⟨fun hne => absurd hoff hne, id, id⟩
  | assertWait hh => exact hmoves _ (Or.inl (by rw [hh]; decide))
  | block hh => exact hmoves _ (Or.inl (by rw [hh]; decide))
  | exit hh => exact hmoves _ (Or.inr (by rw [hh]; decide))
  | call | testOpen | testOver | claimLost | claimWon | mapped | unmapped | gaveUp | found | other
  | refused | ready | use => exact ⟨fun _ => rfl, id, id⟩

theorem settled_of_run {acts : List Act} (h : Inv l s) (hrun : run (step l) s acts = some s') :
    Settled s s' ∧ Inv l s' :=
  run_invariant (I := fun t => Settled s t ∧ Inv l t) ⟨Settled.refl s, h⟩
    (fun _ _ _ ht hs => ⟨ht.1.trans (settled_step ht.2 hs), ht.2.step hs⟩) hrun

theorem Fits.started_le (hf : Fits l p n h w) : n ≤ 1 := by
  cases hf <;> decide

theorem Outcome.started_le {off : ℤ} (ho : Outcome l off n h w) : n ≤ 1 := by
  cases ho <;> decide

theorem Outcome.off_cases {off : ℤ} (ho : Outcome l off n h w) : off = -2 ∨ off = l.field := by
  cases ho with
  | notStarted | gaveUp => exact Or.inl rfl
  | found => exact Or.inr rfl

/-- No more than one thread is ever started. -/
theorem Inv.started_le (h : Inv l s) : s.started ≤ 1 := by
  cases h.phase with
  | unclaimed _ _ hstarted =>
    rw [hstarted]
    exact Nat.zero_le 1
  | owned i _ _ hfits _ => exact hfits.started_le
  | ended _ hout _ => exact hout.started_le

theorem Inv.off_cases (h : Inv l s) : s.off = -1 ∨ s.off = -2 ∨ s.off = l.field := by
  cases h.phase with
  | unclaimed _ hoff | owned _ _ hoff => exact Or.inl hoff
  | ended _ hout _ => exact Or.inr hout.off_cases

/-- What holds in a state, and between it and any later one: one thread at most is started, and by
one reader; the variable has no offset or that of the continuation, and an offset or a failure
stays; whoever goes on does so with that offset; once there is an offset, the thread is woken. -/
structure Sound (l : Layout) (s s' : State) : Prop where
  once : s.started ≤ 1
  alone : ∀ i j, (s.pc i).owns = true → (s.pc j).owns = true → i = j
  offset : s.off = -1 ∨ s.off = -2 ∨ s.off = l.field
  used : ∀ i o, s.pc i = .used o → o = l.field
  released : 0 ≤ s.off → s.helper.leaves = true
  settled : Settled s s'

/-- Whatever the readers, the thread and the kernel do, in any order. -/
theorem probe_sound {acts later : List Act} (h : runFrom l acts = some s)
    (hlater : run (step l) s later = some s') : Sound l s s' := by
  have hinv := inv_of_run h
  refine ⟨hinv.started_le, ?_, hinv.off_cases, hinv.used, fun hoff => (hinv.phase.found hoff).2,
    (settled_of_run hinv hlater).1⟩
  intro i j hi hj
  by_contra hne
  rw [(hinv.phase.owner hj).2.2.2 i hne] at hi
  cases hi

end

/-- A kernel with the continuation in the third word and a signature in the upper bits. -/
def thirdWord : Layout := ⟨2, fun v => v &&& 0xfff, 0xa005, by decide⟩

/-- Two readers come at once. Reader 1 makes the search, and begins before the thread sleeps. -/
def twoReaders : List Act :=
  [.call 0, .call 1, .test 0, .test 1, .claim 1, .claim 0, .check 0, .start 1 true, .probe 1 true,
    .look 1 0, .assertWait, .look 1 7]

/-- The thread goes to sleep just in time; reader 0 comes again. -/
def searchEnds : List Act :=
  [.block, .look 1 0xa005, .wake 1, .publish 1, .call 0, .test 0, .check 0, .use 0]

theorem twoReaders_run : ∃ s, runFrom thirdWord twoReaders = some s ∧ s.pc 0 = .refused ∧
    s.pc 1 = .scanning 0 2 := by
  have hrun : (runFrom thirdWord twoReaders).any
      (fun s => s.pc 0 = .refused ∧ s.pc 1 = .scanning 0 2) = true := by decide +kernel
  rcases Option.any_eq_true _ _ |>.mp hrun with ⟨s, hs, hpc⟩
  exact ⟨s, hs, of_decide_eq_true hpc⟩

/-- The reader that was refused at first uses the offset in the end. -/
theorem probe_sound_twoReaders : ∃ s s', runFrom thirdWord twoReaders = some s ∧
    run (step thirdWord) s searchEnds = some s' ∧ s'.pc 0 = .used 16 ∧ Sound thirdWord s s' := by
  rcases twoReaders_run with ⟨s, hs, -, -⟩
  have hends : (run (step thirdWord) State.init (twoReaders ++ searchEnds)).any
      (fun s => s.pc 0 = .used 16) = true := by decide +kernel
  rcases Option.any_eq_true _ _ |>.mp hends with ⟨s', hs', hpc⟩
  rcases run_append.mp hs' with ⟨t, ht, hlater⟩
  obtain rfl : s = t := Option.some.inj (hs.symm.trans ht)
  exact ⟨s, s', hs, hlater, of_decide_eq_true hpc, probe_sound hs hlater⟩

/-! ## The search ends -/

section

variable {l : Layout} {s : State} {i : ℕ}

@[simp] theorem setPc_setPc (s : State) (i : ℕ) (p q : Pc) :
    (s.setPc i p).setPc i q = s.setPc i q := by
  simp [State.setPc]

/-- The reader whose step it is. -/
def Act.reader : Act → Option ℕ
  | .call i | .test i | .claim i | .start i _ | .probe i _ | .look i _ | .wake i | .publish i
  | .check i | .use i => some i
  | .assertWait | .block | .exit => none

/-- The thread and reader `i` can get from one state to the other by themselves. -/
def Leads (l : Layout) (i : ℕ) (s s' : State) : Prop :=
  ∃ acts, (∀ a ∈ acts, a.reader = some i ∨ a.reader = none) ∧ run (step l) s acts = some s'

theorem Leads.refl (l : Layout) (i : ℕ) (s : State) : Leads l i s s :=
  ⟨[], by simp, rfl⟩

theorem Leads.trans {s' s'' : State} (h : Leads l i s s') (h' : Leads l i s' s'') :
    Leads l i s s'' := by
  rcases h with ⟨acts, hacts, hrun⟩
  rcases h' with ⟨acts', hacts', hrun'⟩
  refine ⟨acts ++ acts', ?_, run_append.mpr ⟨s', hrun, hrun'⟩⟩
  intro a ha
  rcases List.mem_append.mp ha with ha | ha
  · exact hacts a ha
  · exact hacts' a ha

theorem Leads.single {a : Act} {s' : State} (ha : a.reader = some i ∨ a.reader = none)
    (hs : step l s a = some s') : Leads l i s s' :=
  ⟨[a], by simpa using ha, run_cons.mpr ⟨s', hs, rfl⟩⟩

/-- The thread goes to sleep. -/
theorem leads_blocked (h : s.helper.asleep = true) : Leads l i s { s with helper := .blocked } := by
  have hblock : ∀ t : State, t.helper = .waiting → Leads l i t { t with helper := .blocked } :=
    fun t ht => .single (a := .block) (Or.inr rfl) (by simp [step, ht])
  -- from where the thread is: it has to wait, to block, or is there already
  cases hh : s.helper with
  | running =>
    have hwait : Leads l i s { s with helper := .waiting } :=
      .single (a := .assertWait) (Or.inr rfl) (by simp [step, hh])
    exact hwait.trans (hblock _ rfl)
  | waiting => exact hblock s hh
  | blocked =>
    rw [← hh]
    exact .refl l i s
  -- it is not asleep in these states
  | absent | awake | gone =>
    rw [hh] at h
    cases h

/-- A word that is not the continuation is passed over. -/
theorem leads_next {tries word : ℕ} (hpc : s.pc i = .scanning tries word)
    (hne : word ≠ l.word) : Leads l i s (s.setPc i (.nextWord tries word)) := by
  refine .single (a := .look i 0) (Or.inl rfl) ?_
  have hzero : l.isTarget 0 = false := rfl
  have hshows : l.shows s.helper word 0 = true := by simp [Layout.shows, hzero, hne]
  simp [step, hpc, hshows, hzero]

/-- In a thread that sleeps, the search comes to the continuation. -/
theorem leads_found (hblocked : s.helper = .blocked) (hword : l.word < scanWords)
    {tries word : ℕ} (hpc : s.pc i = .scanning tries word) (hle : word ≤ l.word) :
    Leads l i s (s.setPc i (.waking (some (8 * l.word)))) := by
  -- by the number of words before the continuation
  induction hn : l.word - word generalizing s word with
  | zero =>
    obtain rfl : word = l.word := by omega
    refine .single (a := .look i l.signed) (Or.inl rfl) ?_
    have htarget : l.isTarget l.signed = true := by
      simp [Layout.isTarget, Layout.target, l.signed_ne]
    have hshows : l.shows s.helper l.word l.signed = true := by
      simp [Layout.shows, htarget, hblocked]
    simp [step, hpc, hshows, htarget]
  | succ n ih =>
    have hnext : Pc.nextWord tries word = .scanning tries (word + 1) := if_pos (by omega)
    have hgo := leads_next (l := l) hpc (by omega)
    rw [hnext] at hgo
    have hrest := ih (s := s.setPc i (.scanning tries (word + 1))) hblocked (setPc_self s i _)
      (by omega) (by omega)
    rw [setPc_setPc] at hrest
    exact hgo.trans hrest

/-- Behind the continuation, the search comes to the next look at the thread. -/
theorem leads_again {tries word : ℕ} (hpc : s.pc i = .scanning tries word) (hlt : l.word < word) :
    Leads l i s (s.setPc i (.testing (tries + 1))) := by
  -- the induction is on the words that are left in this scan
  induction hn : scanWords - word generalizing s word with
  | zero =>
    have hnext : Pc.nextWord tries word = .testing (tries + 1) := if_neg (by omega)
    have hgo := leads_next (l := l) hpc (by omega)
    rwa [hnext] at hgo
  | succ n ih =>
    have hgo := leads_next (l := l) hpc (by omega)
    -- either there is a next word, or the next try begins
    by_cases hlast : word + 1 < scanWords
    · rw [Pc.nextWord, if_pos hlast] at hgo
      have hrest := ih (s := s.setPc i (.scanning tries (word + 1))) (setPc_self s i _)
        (by omega) (by omega)
      rw [setPc_setPc] at hrest
      exact hgo.trans hrest
    · rwa [Pc.nextWord, if_neg hlast] at hgo

/-- As long as the reader at the search has one more try, the search can end with the offset: the
thread goes to sleep, and the reader goes on. -/
theorem probe_finds {acts : List Act} (h : runFrom l acts = some s) (hword : l.word < scanWords)
    {tries : ℕ} (htries : tries + 1 < maxTries)
    (hpc : s.pc i = .testing tries ∨ ∃ word, s.pc i = .scanning tries word) :
    ∃ s', Leads l i s s' ∧ s'.off = l.field ∧ s'.pc i = .ready := by
  have hinv := inv_of_run h
  have howns : (s.pc i).owns = true := by
    rcases hpc with hpc | ⟨_, hpc⟩ <;> rw [hpc] <;> rfl
  have hplace : (∃ tries, s.pc i = .testing tries) ∨ ∃ tries word, s.pc i = .scanning tries word :=
    hpc.imp (fun h => ⟨tries, h⟩) fun ⟨word, h⟩ => ⟨tries, word, h⟩
  have hasleep := ((hinv.phase.owner howns).2.2.1.asleep hplace).2.1
  -- the thread sleeps from here on
  let t : State := { s with helper := .blocked }
  have hsleep : Leads l i s t := leads_blocked hasleep
  have htest : ∀ k, k < maxTries → Leads l i (t.setPc i (.testing k))
      (t.setPc i (.waking (some (8 * l.word)))) := by
    intro k hk
    have hscan : Leads l i (t.setPc i (.testing k)) (t.setPc i (.scanning k 0)) := by
      refine .single (a := .probe i true) (Or.inl rfl) ?_
      simp [step, hk]
    have hfound := leads_found (l := l) (s := t.setPc i (.scanning k 0)) rfl hword
      (setPc_self t i _) (Nat.zero_le _)
    rw [setPc_setPc] at hfound
    exact hscan.trans hfound
  have hfound : Leads l i t (t.setPc i (.waking (some (8 * l.word)))) := by
    have hself : ∀ p, t.pc i = p → t.setPc i p = t := by
      rintro p rfl
      simp [State.setPc]
    rcases hpc with hpc | ⟨word, hpc⟩
    · have hgo := htest tries (by omega)
      rwa [hself _ hpc] at hgo
    · rcases Nat.lt_or_ge l.word word with hlt | hge
      · exact (leads_again (s := t) hpc hlt).trans (htest (tries + 1) htries)
      · exact leads_found rfl hword hpc hge
  -- and is woken
  let u : State := { t with helper := .awake, woken := true }
  have hwake : Leads l i (t.setPc i (.waking (some (8 * l.word))))
      (u.setPc i (.publishing (some (8 * l.word)))) := by
    refine .single (a := .wake i) (Or.inl rfl) ?_
    simp only [step, setPc_self]
    exact congrArg some (setPc_setPc u i _ _)
  let v : State := { u with off := l.field }
  have hpublish : Leads l i (u.setPc i (.publishing (some (8 * l.word))))
      (v.setPc i .returned) := by
    refine .single (a := .publish i) (Or.inl rfl) ?_
    have hfield : ((8 * l.word : ℕ) : ℤ) = l.field := by
      rw [Layout.field]
      omega
    simp only [step, setPc_self, Option.elim_some, hfield]
    exact congrArg some (setPc_setPc v i _ _)
  have hcheck : Leads l i (v.setPc i .returned) (v.setPc i .ready) := by
    refine .single (a := .check i) (Or.inl rfl) ?_
    have hnonneg : ¬ (v.setPc i .returned).off < 0 := Int.not_lt.mpr (field_nonneg l)
    simp only [step, setPc_self, if_true, if_neg hnonneg, setPc_setPc]
  exact ⟨v.setPc i .ready, hsleep.trans (hfound.trans (hwake.trans (hpublish.trans hcheck))), rfl,
    setPc_self v i .ready⟩

end

/-- From the middle of the search of `twoReaders`. -/
theorem probe_finds_twoReaders : ∃ s s', runFrom thirdWord twoReaders = some s ∧
    Leads thirdWord 1 s s' ∧ s'.off = 16 ∧ s'.pc 1 = .ready := by
  rcases twoReaders_run with ⟨s, hs, -, hpc⟩
  rcases probe_finds hs (by decide) (show 0 + 1 < maxTries by decide) (Or.inr ⟨2, hpc⟩) with
    ⟨s', hleads, hoff, hready⟩
  exact ⟨s, s', hs, hleads, hoff, hready⟩

end ProcFS.WchanProbe
