import ProcFS.Lib.Pins
import ProcFS.Process

/-!
# ProcFS.Pinned — which process a file shows

The node of a process has its number, and numbers are used again. `proc_find` returns a process with
a reference, and as long as it is not given back the number stays with that process. What the daemon
is asked for, and `proc_name`, go by the number alone.

Here a read function is the order in which it does these things, for any number of readers at once
and with processes that start, exit and change their credentials at any time.

* `accepted_mixing`: the functions that may show parts of two processes.
* `accepted_vetting`: those that may show a process that was not checked.
* `shows_one_process_iff`: all that a read shows is of one process, in every interleaving.
* `shows_checked_iff`: and of one that passed the check.
-/

namespace ProcFS.Pinned

open Pins

/-! ## The functions that read data -/

/-- The read functions of the files of a process, of its threads and of its descriptors. -/
inductive ReadDataFn where
  | doprocargs
  | dopid
  | doppid
  | dopgid
  | dosid
  | dotty
  | dostatus
  | dotaskinfo
  | donote
  | doclearRefs
  | dolimit
  | domem
  | domap
  | domaps
  | dosmaps
  | dosmapsRollup
  | donumaMaps
  | dopagemap
  | docomm
  | docpu
  | doprocstat
  | dostatm
  | doio
  | doenviron
  | doregs
  | dofpregs
  | doauxv
  | dowchan
  | dostack
  | dothreadinfo
  | dothreadcomm
  | dothreadstat
  | dothreadstatus
  | dothreadsched
  | dofd
  | dosocket
deriving DecidableEq, Repr

/-! ### What they share

`next` is what follows. Where the answer makes no difference to what is done next, there is one
`next` for both cases. -/

/-- A request to the daemon with the number of the process, or `proc_name`. -/
def request {held : Bool} (next : Prog held) : Prog held := .ask next next

/-- A loop of `n + 1` requests at most, which ends at the first that fails. -/
def requests {held : Bool} (next : Prog held) : ℕ → Prog held
  | 0 => request next
  | n + 1 => .ask next (requests next n)

/-- The reference is given back, and there is nothing left to do. -/
def releDone : Prog true := .rele .done

/-- `procfs_pctx_get`. What the daemon does not tell is found out with more requests: the number of
the threads, and the regions. -/
def procfsPctxGet (n : ℕ) (next : Prog false) : Prog false :=
  let procName := request (.rele next)
  .find next (.use (.ask (request (requests procName n)) procName))

/-- `procfs_fetch_procargs`: the first request decides. -/
def procfsFetchProcargs (failed fetched : Prog true) : ℕ → Prog true
  | 0 => .ask failed fetched
  | n + 1 => .ask failed (requests fetched n)

/-- `procfs_read_procargs`: what was fetched may have no arguments. -/
def procfsReadProcargs (n : ℕ) (failed read : Prog true) : Prog true :=
  procfsFetchProcargs failed (.test read failed) n

def procfsCmdlineComm : Prog true := request releDone

/-- The walks over the regions of a process that check the access, and the loops over its memory. -/
def checkedRequests (n : ℕ) : Prog false :=
  .find .done (.check releDone (requests releDone n))

/-- The files with a number that is read from `struct proc`. -/
def procField : Prog false := .find .done (.use releDone)

/-- `procfs_doregs` and `procfs_dofpregs`: the process is given back before the daemon is asked. -/
def registers : Prog false := .find .done (.test releDone (.rele (request .done)))

/-- What `environ` and the native `auxv` do: nothing is shown of a zombie or a system process. -/
def argumentRegion (n : ℕ) : Prog false :=
  .find .done (.test releDone (procfsReadProcargs n releDone releDone))

/-- `procfs_dowchan` and `procfs_dostack`. The requests for symbols are not about the process. -/
def waiting : Prog false := .find .done (.use releDone)

/-- The files of a thread that show its process as well. -/
def threadText (n : ℕ) : Prog false := request (procfsPctxGet n .done)

/-! ### One by one -/

/-- What a read function does with the number of its process. `linux` is `procfs_linux_mode`, and
`n + 1` the number of rounds that the loops make. -/
def ReadDataFn.reads (linux : Bool) (n : ℕ) : ReadDataFn → Prog false
  | .doprocargs =>
    .find .done (.test procfsCmdlineComm (procfsReadProcargs n procfsCmdlineComm releDone))
  -- the number is that of the node
  | .dopid => .done
  | .doppid | .dopgid | .dosid => procField
  | .dotty => request .done
  -- `procfs_doprocstatus_linux` finds the process twice
  | .dostatus => if linux then procfsPctxGet n procField else request .done
  | .dotaskinfo =>
    .find .done (.ask (.test (.use (requests (request releDone) n)) releDone) releDone)
  -- reading is refused
  | .donote | .doclearRefs => .done
  | .dolimit => .find .done (.test releDone (.use releDone))
  | .domem | .domap | .domaps | .dosmaps | .dosmapsRollup | .donumaMaps | .dopagemap =>
    checkedRequests n
  | .docomm | .dostatm => procfsPctxGet n .done
  | .docpu => request .done
  | .doprocstat => procfsPctxGet n (request .done)
  -- the process is given back behind the check
  | .doio => .find .done (.check releDone (.rele (request .done)))
  | .doenviron => argumentRegion n
  | .doregs | .dofpregs => registers
  | .doauxv => if linux then procField else argumentRegion n
  | .dowchan | .dostack => waiting
  | .dothreadinfo => .find .done (.ask (.test (.use releDone) releDone) releDone)
  -- a thread without a name has the name of its process
  | .dothreadcomm => .ask (request .done) .done
  | .dothreadstat | .dothreadstatus | .dothreadsched => threadText n
  | .dofd | .dosocket => request .done

/-! ## What they show -/

/-- The functions that may show two processes at once. -/
def ReadDataFn.mixes (linux : Bool) : ReadDataFn → Bool
  | .doprocstat | .dothreadstat | .dothreadstatus | .dothreadsched => true
  | .dostatus => linux
  | _ => false

/-- The functions that show nothing but a process that passed the check, and those that show no
process at all. -/
def ReadDataFn.vets : ReadDataFn → Bool
  | .domem | .domap | .domaps | .dosmaps | .dosmapsRollup | .donumaMaps | .dopagemap => true
  | .dopid | .donote | .doclearRefs => true
  | _ => false

section

variable {V : Type} {o : Analysis V} {x y : V}

/-- A loop of requests under a reference is accepted if what follows is, before the first answer and
after it. -/
theorem accepted_requests {next : Prog true} (hx : o.use x = some y) (hy : o.use y = some y)
    (n : ℕ) : (requests next n).accepted o x = (next.accepted o x && next.accepted o y) := by
  induction n generalizing x with
  | zero => simp [requests, request, Prog.accepted, hx]
  | succ n ih =>
    rw [requests, Prog.accepted, hx, Option.any_some, ih hy, Bool.and_self]

theorem accepted_fetchProcargs {failed fetched : Prog true} (hx : o.use x = some y)
    (hy : o.use y = some y) (n : ℕ) :
    (procfsFetchProcargs failed fetched n).accepted o x =
      (failed.accepted o x && fetched.accepted o y) := by
  cases n with
  | zero => simp [procfsFetchProcargs, Prog.accepted, hx]
  | succ n =>
    rw [procfsFetchProcargs, Prog.accepted, hx, Option.any_some, accepted_requests hy hy,
      Bool.and_self]

/-- The first answer is refused. -/
theorem accepted_fetchProcargs_none {failed fetched : Prog true} (hx : o.use x = none) (n : ℕ) :
    (procfsFetchProcargs failed fetched n).accepted o x = false := by
  cases n <;> simp [procfsFetchProcargs, Prog.accepted, hx]

end

/-- After `procfs_pctx_get` a process was shown, or none was found. -/
theorem accepted_pctxGet (n : ℕ) (next : Prog false) :
    (procfsPctxGet n next).accepted mixing .nobody =
      (next.accepted mixing .nobody && next.accepted mixing .other) := by
  simp [procfsPctxGet, request, Prog.accepted, accepted_requests mixing_use_same mixing_use_same]

/-- It may be another process than the one that was shown before. -/
theorem accepted_pctxGet_other (n : ℕ) (next : Prog false) :
    (procfsPctxGet n next).accepted mixing .other = false := by
  simp [procfsPctxGet, Prog.accepted]

/-- Which functions the analysis refuses because of a second process. -/
theorem accepted_mixing (linux : Bool) (n : ℕ) (f : ReadDataFn) :
    (f.reads linux n).accepted mixing mixing.start = !f.mixes linux := by
  cases f
  all_goals cases linux
  all_goals simp [ReadDataFn.reads, ReadDataFn.mixes, procField, registers, argumentRegion, waiting,
    threadText, checkedRequests, procfsCmdlineComm, procfsReadProcargs, releDone, request,
    Prog.accepted, accepted_pctxGet, accepted_pctxGet_other,
    accepted_requests mixing_use_nobody mixing_use_same,
    accepted_requests mixing_use_same mixing_use_same,
    accepted_fetchProcargs mixing_use_nobody mixing_use_same]

/-- Which functions the analysis refuses because of a process that was not checked. -/
theorem accepted_vetting (linux : Bool) (n : ℕ) (f : ReadDataFn) :
    (f.reads linux n).accepted vetting vetting.start = f.vets := by
  cases f
  all_goals cases linux
  all_goals simp [ReadDataFn.reads, ReadDataFn.vets, procField, registers, argumentRegion, waiting,
    threadText, checkedRequests, procfsCmdlineComm, procfsReadProcargs, procfsPctxGet, releDone,
    request, Prog.accepted, accepted_requests vetting_use_true vetting_use_true,
    accepted_fetchProcargs_none vetting_use_false]

/-! ## Over all interleavings -/

section

-- the credentials of the readers
variable (cred : ℕ → Cred)

/-- The check of reader `i`. -/
def allows (i : ℕ) (p : Proc) : Bool := procfsCheckCanAccessProcess (cred i) p == none

/-- What readers and processes have come to. Readers are numbered, and what a process is like is
its `Proc`. -/
def runFrom (acts : List (Act Int32 ℕ Proc)) : Option (State Int32 ℕ Proc) :=
  run (step (allows cred)) (State.init 0 shProc) acts

theorem exists_allowed (i : ℕ) : ∃ p, allows cred i p = true :=
  ⟨{ shProc with pUid := (cred i).crUid }, by simp [allows, procfsCheckCanAccessProcess]⟩

theorem exists_denied (i : ℕ) : ∃ p, allows cred i p = false := by
  refine ⟨{ shProc with
    pUid := (cred i).crUid + 1
    pRuid := (cred i).crUid + 1
    pGid := (cred i).crGid + 1
    pRgid := (cred i).crGid + 1 }, ?_⟩
  simp [allows, procfsCheckCanAccessProcess]

/-- All that one read shows is of one process, whatever the processes and the other readers do in
the meantime, except for `stat` of a process and `stat`, `status` and `sched` of a thread, and
`status` of a process in the format of Linux. -/
theorem shows_one_process_iff (linux : Bool) (n : ℕ) (f : ReadDataFn) :
    (∀ acts s, runFrom cred acts = some s → ∀ i, (s.agent i).start = f.reads linux n →
      ∀ p ∈ (s.agent i).shown, ∀ q ∈ (s.agent i).shown, p = q) ↔ f.mixes linux = false := by
  have hiff := mixing.accepted_iff (0 : Int32) shProc 0 (exists_allowed cred 0)
    (exists_denied cred 0) (f.reads linux n)
  rw [accepted_mixing, Bool.not_eq_true'] at hiff
  rw [hiff]
  refine forall₃_congr fun acts s _ => forall₂_congr fun i _ => ?_
  constructor
  · rintro hone ⟨p, hp, q, hq, hne⟩
    exact hne (hone p hp q hq)
  · intro hfine p hp q hq
    by_contra hne
    exact hfine ⟨p, hp, q, hq, hne⟩

/-- Only the files of the address space, and those that show no process, show nothing but a process
that passed the check of the reader. In `io` it is another process if the number is used again
between the check and the request. -/
theorem shows_checked_iff (linux : Bool) (n : ℕ) (f : ReadDataFn) :
    (∀ acts s, runFrom cred acts = some s → ∀ i, (s.agent i).start = f.reads linux n →
      ∀ p ∈ (s.agent i).shown, p ∈ (s.agent i).passed) ↔ f.vets = true := by
  have hiff := vetting.accepted_iff (0 : Int32) shProc 0 (exists_allowed cred 0)
    (exists_denied cred 0) (f.reads linux n)
  rw [accepted_vetting] at hiff
  rw [hiff]
  refine forall₃_congr fun acts s _ => forall₂_congr fun i _ => ?_
  constructor
  · rintro hall ⟨p, hp, hnot⟩
    exact hnot (hall p hp)
  · intro hfine p hp
    by_contra hnot
    exact hfine ⟨p, hp, hnot⟩

end

end ProcFS.Pinned
