import Mathlib.Algebra.Group.Nat.Defs
import Mathlib.Data.List.TakeWhile
import ProcFS.Types

/-!
# ProcFS.Data.Threads — threads in kernel memory

The extension has no list of the threads of a process. It walks the list of the `uthread`s, each of
which lies right behind its thread in memory, and takes the size of a `struct thread` off their
addresses. That size is measured once: the `uthread` of the current thread is taken to be the first
of the current process that lies above the thread.

From the threads and the offset of the continuation comes what `wchan` and `stack` show: where the
first blocked thread goes on.

* `candidate_of_between`: what can be taken for the `uthread` of the current thread.
* `threadSizeInit_eq_iff`: when the size of a thread is measured right.
* `continuation_of_first_blocked`: then the first blocked thread of a process is found, and where it
  goes on.
-/

namespace ProcFS.Data

/-- The running kernel: which addresses are mapped, the words of the memory, `ptrauth_strip`, the
size of a `struct thread`, and the offset of the continuation in it. -/
structure Kernel where
  mapped : UInt64 → Bool
  word : UInt64 → UInt64
  strip : UInt64 → UInt64
  threadSize : UInt64
  field : UInt64

def procfsKptrMin : UInt64 := 0xfffffe0000000000

def procfsThreadSizeMax : UInt64 := 262144

def procfsMaxThreads : ℕ := 100000

def procfsWchanMaxThreads : ℕ := 64

namespace Kernel

variable (k : Kernel)

def procfsKptrOk (va : UInt64) : Bool := procfsKptrMin ≤ va && k.mapped va

/-! ## The size of a thread -/

/-- A `uthread` may be the one of the thread at `th`. -/
def Candidate (th u : UInt64) : Prop := th < u ∧ u - th < procfsThreadSizeMax

instance (th u : UInt64) : Decidable (Candidate th u) := inferInstanceAs (Decidable (_ ∧ _))

/-- What one `uthread` does to `best`. -/
def closer (th : UInt64) (best : Option UInt64) (u : UInt64) : Option UInt64 :=
  if Candidate th u then
    match best with
    | none => some u
    | some b => if u < b then some u else some b
  else best

/-- The loop of `procfs_thread_size_init`, with the number of rounds that are left. -/
def sizeLoop (th : UInt64) : ℕ → List UInt64 → Option UInt64 → Option UInt64
  | 0, _, best => best
  | _ + 1, [], best => best
  | n + 1, u :: rest, best =>
    if k.procfsKptrOk u then sizeLoop th n rest (closer th best u) else best

/-- `procfs_thread_size_init`: the size, if it is known. `uthlist` is the list of the current
process and `th` the current thread. -/
def procfsThreadSizeInit (uthlist : List UInt64) (th : UInt64) (known : Option UInt64) :
    Option UInt64 :=
  match known with
  | some size => some size
  | none =>
    if th = 0 then none
    else (k.sizeLoop th procfsMaxThreads uthlist none).map fun best => best - th

/-! ## The threads of a process -/

/-- The loop of `procfs_get_thread_ptrs`, with the room that is left. -/
def ptrsLoop (size : UInt64) : ℕ → List UInt64 → List UInt64
  | 0, _ => []
  | _ + 1, [] => []
  | n + 1, u :: rest =>
    if k.procfsKptrOk u then
      if k.procfsKptrOk (u - size) then (u - size) :: ptrsLoop size n rest
      else ptrsLoop size (n + 1) rest
    else []

def procfsGetThreadPtrs (size : Option UInt64) (uthlist : List UInt64) (max : ℕ) : List UInt64 :=
  match size with
  | none => []
  | some size => k.ptrsLoop size (min max procfsMaxThreads) uthlist

/-- What the loop of `procfs_thread_continuation` does with one thread. -/
def continuationOf (off base : UInt64) : Option UInt64 :=
  let addr := base + off
  if k.procfsKptrOk base && k.procfsKptrOk addr then
    if k.word addr ≠ 0 then some (k.strip (k.word addr)) else none
  else none

/-- `procfs_thread_continuation`, for an offset that was found or not. -/
def procfsThreadContinuation (off : Option UInt64) (size : Option UInt64) (uthlist : List UInt64) :
    Except Errno UInt64 :=
  match off with
  | none => .error .ENOTSUP
  | some off =>
    .ok (((k.procfsGetThreadPtrs size uthlist procfsWchanMaxThreads).findSome?
      (k.continuationOf off)).getD 0)

/-! ## The loops -/

theorem sizeLoop_eq (th : UInt64) (n : ℕ) (us : List UInt64) (best : Option UInt64) :
    k.sizeLoop th n us best = ((us.take n).takeWhile k.procfsKptrOk).foldl (closer th) best := by
  induction us generalizing n best with
  | nil => cases n <;> rfl
  | cons u us ih =>
    cases n with
    | zero => rfl
    | succ n =>
      -- the loop stops at the first pointer that is no kernel pointer
      rw [sizeLoop, List.take_succ_cons, List.takeWhile_cons]
      split_ifs
      · exact ih n _
      · rfl

theorem ptrsLoop_eq (size : UInt64) (n : ℕ) (us : List UInt64) :
    k.ptrsLoop size n us =
      (((us.takeWhile k.procfsKptrOk).map fun u => u - size).filter k.procfsKptrOk).take n := by
  induction us generalizing n with
  | nil => cases n <;> rfl
  | cons u us ih =>
    cases n with
    | zero => rfl
    | succ n =>
      rw [ptrsLoop, List.takeWhile_cons]
      -- a thread that is no kernel pointer is passed over and takes no place in the array
      split_ifs with hu hth
      · rw [List.map_cons, List.filter_cons_of_pos hth, List.take_succ_cons, ih n]
      · rw [List.map_cons, List.filter_cons_of_neg hth, ih (n + 1)]
      · rfl

/-- What `best` is: nothing without a candidate, and otherwise the lowest one. -/
def IsBest (th : UInt64) (us : List UInt64) : Option UInt64 → Prop
  | none => ∀ u ∈ us, ¬ Candidate th u
  | some b => b ∈ us ∧ Candidate th b ∧ ∀ u ∈ us, Candidate th u → b ≤ u

theorem isBest_closer {th : UInt64} {us : List UInt64} {best : Option UInt64} (u : UInt64)
    (h : IsBest th us best) : IsBest th (us ++ [u]) (closer th best u) := by
  unfold closer
  split_ifs with hu
  · -- the new pointer is a candidate
    cases best with
    | none =>
      refine ⟨by simp, hu, ?_⟩
      intro v hv hcand
      rcases List.mem_append.mp hv with hv | hv
      · exact absurd hcand (h v hv)
      · rw [List.mem_singleton.mp hv]
        exact UInt64.le_refl u
    | some b =>
      rcases h with ⟨hmem, hcand, hlow⟩
      dsimp only
      split_ifs with hlt
      · -- it is nearer than the best one so far
        refine ⟨by simp, hu, ?_⟩
        intro v hv hcandv
        rcases List.mem_append.mp hv with hv | hv
        · exact UInt64.le_trans (UInt64.le_of_lt hlt) (hlow v hv hcandv)
        · rw [List.mem_singleton.mp hv]
          exact UInt64.le_refl u
      · -- it is not
        refine ⟨List.mem_append_left _ hmem, hcand, ?_⟩
        intro v hv hcandv
        rcases List.mem_append.mp hv with hv | hv
        · exact hlow v hv hcandv
        · rw [List.mem_singleton.mp hv]
          exact UInt64.not_lt.mp hlt
  · -- the new pointer is none, so the best one stays
    cases best with
    | none =>
      intro v hv
      rcases List.mem_append.mp hv with hv | hv
      · exact h v hv
      · rw [List.mem_singleton.mp hv]
        exact hu
    | some b =>
      rcases h with ⟨hmem, hcand, hlow⟩
      refine ⟨List.mem_append_left _ hmem, hcand, ?_⟩
      intro v hv hcandv
      rcases List.mem_append.mp hv with hv | hv
      · exact hlow v hv hcandv
      · rw [List.mem_singleton.mp hv] at hcandv
        exact absurd hcandv hu

theorem isBest_foldl (th : UInt64) (us : List UInt64) :
    IsBest th us (us.foldl (closer th) none) := by
  induction us using List.reverseRecOn with
  | nil =>
    intro u hu
    cases hu
  | append_singleton us u ih =>
    rw [List.foldl_append]
    exact isBest_closer u ih

/-! ## The size that is measured -/

/-- Threads that are all there, with what lies behind them. -/
structure Live (ts : List UInt64) : Prop where
  thread : ∀ t ∈ ts, k.procfsKptrOk t = true
  uthread : ∀ t ∈ ts, k.procfsKptrOk (t + k.threadSize) = true
  field : ∀ t ∈ ts, k.procfsKptrOk (t + k.field) = true

/-- The list of the `uthread`s of some threads. -/
def uthlist (ts : List UInt64) : List UInt64 := ts.map fun t => t + k.threadSize

theorem takeWhile_uthlist {ts : List UInt64} (h : k.Live ts) :
    (k.uthlist ts).takeWhile k.procfsKptrOk = k.uthlist ts := by
  rw [List.takeWhile_eq_self_iff]
  intro u hu
  rcases List.mem_map.mp hu with ⟨t, ht, rfl⟩
  exact h.uthread t ht

section Measured

variable {k} {mine : List UInt64} {th : UInt64}

/-- The `uthread` of the current thread is a candidate. -/
theorem candidate_own (hpos : 0 < k.threadSize) (hsize : k.threadSize < procfsThreadSizeMax)
    (hend : th.toNat + k.threadSize.toNat < 2 ^ 64) : Candidate th (th + k.threadSize) := by
  have hdiff : th + k.threadSize - th = k.threadSize := by
    rw [UInt64.add_comm, UInt64.add_sub_cancel]
  refine ⟨?_, by rw [hdiff]; exact hsize⟩
  rw [UInt64.lt_iff_toNat_lt] at hpos ⊢
  rw [UInt64.toNat_add, Nat.mod_eq_of_lt hend]
  have hzero : (0 : UInt64).toNat = 0 := rfl
  omega

/-- Another candidate lies before it only if it lies between the thread and the `uthread`. -/
theorem candidate_of_between (hsize : k.threadSize < procfsThreadSizeMax)
    (hend : th.toNat + k.threadSize.toNat < 2 ^ 64) {u : UInt64} (hlow : th < u)
    (hhigh : u < th + k.threadSize) : Candidate th u := by
  refine ⟨hlow, ?_⟩
  rw [UInt64.lt_iff_toNat_lt] at hlow hhigh hsize ⊢
  rw [UInt64.toNat_add, Nat.mod_eq_of_lt hend] at hhigh
  rw [UInt64.toNat_sub_of_le u th (UInt64.le_of_lt (UInt64.lt_iff_toNat_lt.mpr hlow))]
  omega

/-- The size is measured right if and only if no `uthread` of the process lies between the current
thread and its own. -/
theorem threadSizeInit_eq_iff (hpos : 0 < k.threadSize) (hsize : k.threadSize < procfsThreadSizeMax)
    (hend : th.toNat + k.threadSize.toNat < 2 ^ 64) (hlive : k.Live mine) (hth : th ∈ mine)
    (hlen : mine.length ≤ procfsMaxThreads) :
    k.procfsThreadSizeInit (k.uthlist mine) th none = some k.threadSize ↔
      ∀ u ∈ k.uthlist mine, ¬ (th < u ∧ u < th + k.threadSize) := by
  -- the loop sees all of the list, and what it keeps is the lowest candidate
  have hown : th + k.threadSize ∈ k.uthlist mine := List.mem_map_of_mem hth
  have hcand := candidate_own (k := k) hpos hsize hend
  have hne : th ≠ 0 := by
    rintro rfl
    have hok := hlive.thread 0 hth
    simp [procfsKptrOk, procfsKptrMin] at hok
  have htake : (k.uthlist mine).take procfsMaxThreads = k.uthlist mine :=
    List.take_of_length_le (by rw [uthlist, List.length_map]; exact hlen)
  have hbest := isBest_foldl th (k.uthlist mine)
  rw [procfsThreadSizeInit, if_neg hne, sizeLoop_eq, htake, takeWhile_uthlist k hlive]
  -- there is a candidate: the own `uthread`
  cases hfold : (k.uthlist mine).foldl (closer th) none with
  | none =>
    rw [hfold] at hbest
    exact absurd hcand (hbest _ hown)
  | some b =>
    rw [hfold] at hbest
    rcases hbest with ⟨hmem, hcandb, hlow⟩
    have hle := hlow _ hown hcand
    rw [Option.map_some, Option.some.injEq]
    constructor
    · -- a `uthread` in between would be a candidate below the one that was kept
      rintro hb u hu ⟨hthu, hlt⟩
      have hb' : b = th + k.threadSize := by
        rw [← hb, UInt64.add_comm, UInt64.sub_add_cancel]
      have hbu := hlow u hu (candidate_of_between hsize hend hthu hlt)
      rw [hb'] at hbu
      exact absurd hlt (UInt64.not_lt.mpr hbu)
    · -- the lowest candidate is not above the own `uthread`, and there is none below it
      intro hnone
      have hb : b = th + k.threadSize := by
        rcases UInt64.lt_or_eq_of_le hle with hlt | heq
        · exact absurd ⟨hcandb.1, hlt⟩ (hnone b hmem)
        · exact heq
      rw [hb, UInt64.add_comm, UInt64.add_sub_cancel]

end Measured

/-! ## What a process waits in -/

theorem ptrs_uthlist {ts : List UInt64} (h : k.Live ts) (max : ℕ) (hmax : max ≤ procfsMaxThreads) :
    k.procfsGetThreadPtrs (some k.threadSize) (k.uthlist ts) max = ts.take max := by
  have hback : ((k.uthlist ts).map fun u => u - k.threadSize) = ts := by
    rw [uthlist, List.map_map]
    refine (List.map_congr_left fun t _ => ?_).trans (List.map_id ts)
    exact UInt64.add_sub_cancel t k.threadSize
  rw [procfsGetThreadPtrs, ptrsLoop_eq, takeWhile_uthlist k h, hback,
    List.filter_eq_self.mpr h.thread, Nat.min_eq_left hmax]

/-- The continuation of a thread, without its signature, if it has one. -/
def blockedIn (t : UInt64) : Option UInt64 :=
  if k.word (t + k.field) ≠ 0 then some (k.strip (k.word (t + k.field))) else none

theorem continuation_uthlist {ts : List UInt64} (h : k.Live ts) :
    k.procfsThreadContinuation (some k.field) (some k.threadSize) (k.uthlist ts) =
      .ok (((ts.take procfsWchanMaxThreads).findSome? k.blockedIn).getD 0) := by
  have hsame : ∀ t ∈ ts.take procfsWchanMaxThreads, k.continuationOf k.field t = k.blockedIn t := by
    intro t ht
    have hmem := List.mem_of_mem_take ht
    rw [continuationOf, h.thread t hmem, h.field t hmem]
    rfl
  rw [procfsThreadContinuation, ptrs_uthlist k h procfsWchanMaxThreads (by decide),
    ← List.head?_filterMap, List.filterMap_congr hsame, List.head?_filterMap]

/-- The process that reads a `wchan` first has threads `mine`, and its thread `th` reads. Unless
there is a `uthread` of the process between `th` and its own, and only then, the size of a thread is
measured right; and then, for every process, what is found is where the first of its first 64
threads that is blocked goes on. -/
theorem continuation_of_first_blocked {mine : List UInt64} {th : UInt64} (hpos : 0 < k.threadSize)
    (hsize : k.threadSize < procfsThreadSizeMax)
    (hend : th.toNat + k.threadSize.toNat < 2 ^ 64) (hlive : k.Live mine) (hth : th ∈ mine)
    (hlen : mine.length ≤ procfsMaxThreads) :
    (k.procfsThreadSizeInit (k.uthlist mine) th none = some k.threadSize ↔
      ∀ u ∈ k.uthlist mine, ¬ (th < u ∧ u < th + k.threadSize)) ∧
    ((∀ u ∈ k.uthlist mine, ¬ (th < u ∧ u < th + k.threadSize)) → ∀ ts, k.Live ts →
      k.procfsThreadContinuation (some k.field)
          (k.procfsThreadSizeInit (k.uthlist mine) th none) (k.uthlist ts) =
        .ok (((ts.take procfsWchanMaxThreads).findSome? k.blockedIn).getD 0)) := by
  have hiff := threadSizeInit_eq_iff hpos hsize hend hlive hth hlen
  refine ⟨hiff, fun hnone ts hts => ?_⟩
  rw [hiff.mpr hnone]
  exact continuation_uthlist k hts

end Kernel

/-- A kernel with all addresses mapped, whose second thread is blocked. -/
def oneBlocked : Kernel where
  mapped := fun _ => true
  word := fun va => if va = 0xfffffe0010002010 then 0x8012fe0007000404 else 0
  strip := fun v => v ||| 0xfffffe0000000000
  threadSize := 0x800
  field := 0x10

theorem live_of_mapped {ts : List UInt64}
    (h : ∀ t ∈ ts, t = 0xfffffe0010000000 ∨ t = 0xfffffe0010002000) : oneBlocked.Live ts := by
  refine ⟨fun t ht => ?_, fun t ht => ?_, fun t ht => ?_⟩
  all_goals rcases h t ht with rfl | rfl <;> decide

/-- The two threads of the reader are measured with the first, and the second is blocked. -/
theorem continuation_oneBlocked :
    oneBlocked.procfsThreadContinuation (some 0x10)
      (oneBlocked.procfsThreadSizeInit
        (oneBlocked.uthlist [0xfffffe0010000000, 0xfffffe0010002000]) 0xfffffe0010000000 none)
      (oneBlocked.uthlist [0xfffffe0010000000, 0xfffffe0010002000]) =
    .ok 0xfffffe0007000404 := by
  have hlive : oneBlocked.Live [0xfffffe0010000000, 0xfffffe0010002000] :=
    live_of_mapped (by simp)
  have hth : (0xfffffe0010000000 : UInt64) ∈ [0xfffffe0010000000, 0xfffffe0010002000] := by simp
  have hall := (oneBlocked.continuation_of_first_blocked (by decide) (by decide) (by decide) hlive
    hth (by decide)).2 (by simp [Kernel.uthlist, oneBlocked]) _ hlive
  exact hall.trans (by decide)

end ProcFS.Data
