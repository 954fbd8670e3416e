import ProcFS.Lib.Depends
import ProcFS.Lib.Runs

/-!
# ProcFS.Lifecycle — loading and unloading the kernel extension

`procfs_start` and `procfs_stop`, with what they call: the memory tag and the locks of the node
table, the entry of the file system, the kernel control with its lock, and the `sysctl` oids. Any
call that can fail may fail. The kernel extension may be loaded again after it was unloaded, and
asked to stop again after it refused.

Each of these resources rests on others. They are acquired and released in order, and none is left
behind, in every run but for two cases: `procfs_stop` takes the control and the oids down before it
knows whether the file system can be removed, so that a second attempt takes them down twice; and it
does not look at what `ctl_deregister` returns, so that a control that a daemon still uses is left
without its lock.

* `Orderly.start`: `procfs_start` keeps the order.
* `Orderly.stop`: so does every `procfs_stop` that is not careless.
* `tidy_iff_careful`: in which runs the resources are kept tidy.
-/

namespace ProcFS.Lifecycle

open Lib

/-- What the kernel has of the extension. -/
inductive Kind where
  | osmallocTag
  | lckGrp
  | hashMutex
  | fsentry
  | ctlGrp
  | ctlLock
  | ctl
  | oidNode
  | oidLinux
  | oidLinuxVersion
deriving DecidableEq, Repr

instance : Fintype Kind where
  elems := {.osmallocTag, .lckGrp, .hashMutex, .fsentry, .ctlGrp, .ctlLock, .ctl, .oidNode,
    .oidLinux, .oidLinuxVersion}
  complete := by
    intro k
    cases k <;> decide

/-- A mutex is in a lock group, an oid below its parent. The callbacks of the control take
`g_ctl_lock`, and a mount needs memory and the lock of the table. -/
def needs : Kind → List Kind
  | .hashMutex => [.lckGrp]
  | .fsentry => [.osmallocTag, .lckGrp, .hashMutex]
  | .ctlLock => [.ctlGrp]
  | .ctl => [.ctlLock]
  | .oidLinux | .oidLinuxVersion => [.oidNode]
  | .osmallocTag | .lckGrp | .ctlGrp | .oidNode => []

abbrev Event := UseEvent Kind

/-- The static variables of the extension; a pointer is there or NULL. -/
structure Image where
  initialized : Bool
  procfsOsmallocTag : Bool
  pfsnodeLckGrp : Bool
  pfsnodeHashMutex : Bool
  procfsVfsTableRef : Bool
  gCtlGrp : Bool
  gCtlLock : Bool
  gCtlRef : Bool
deriving DecidableEq, Repr

/-- Right after the extension was loaded. -/
def Image.fresh : Image := ⟨false, false, false, false, false, false, false, false⟩

/-- What the calls of `procfs_start` return: whether they succeed. `lck_grp_alloc_init` and
`lck_mtx_alloc_init` are listed where the source looks at what they return. -/
structure StartOutcome where
  tagalloc : Bool
  fsadd : Bool
  ctlGrpAlloc : Bool
  ctlLockAlloc : Bool
  ctlRegister : Bool

structure StopOutcome where
  vmaUuid : Bool
  ctlDeregister : Bool
  fsremove : Bool

/-! ## The functions -/

/-- `procfs_init`: whether it succeeds, the variables after it, and what was acquired. -/
def procfsInit (tagalloc : Bool) (im : Image) : Bool × Image × List Event :=
  if im.initialized then (true, im, [])
  else if tagalloc then
    (true,
      { im with
        initialized := true
        procfsOsmallocTag := true
        pfsnodeLckGrp := true
        pfsnodeHashMutex := true },
      [.acquire .osmallocTag, .acquire .lckGrp, .acquire .hashMutex])
  else (false, { im with initialized := true, procfsOsmallocTag := false }, [])

/-- Something is released if its pointer is not NULL. -/
def releaseIf (pointer : Bool) (k : Kind) : List Event := if pointer then [.release k] else []

def procfsFini (im : Image) : Image × List Event :=
  ({ im with procfsOsmallocTag := false, pfsnodeHashMutex := false, pfsnodeLckGrp := false },
    releaseIf im.procfsOsmallocTag .osmallocTag ++ releaseIf im.pfsnodeHashMutex .hashMutex ++
      releaseIf im.pfsnodeLckGrp .lckGrp)

/-- `procfs_ctl_register`, whose result nobody looks at. -/
def procfsCtlRegister (o : StartOutcome) (im : Image) : Image × List Event :=
  if o.ctlGrpAlloc then
    if o.ctlLockAlloc then
      if o.ctlRegister then
        ({ im with gCtlGrp := true, gCtlLock := true, gCtlRef := true },
          [.acquire .ctlGrp, .acquire .ctlLock, .acquire .ctl])
      else
        ({ im with gCtlGrp := false, gCtlLock := false },
          [.acquire .ctlGrp, .acquire .ctlLock, .release .ctlLock, .release .ctlGrp])
    else
      ({ im with gCtlGrp := false, gCtlLock := false }, [.acquire .ctlGrp, .release .ctlGrp])
  else ({ im with gCtlGrp := false }, [])

/-- `procfs_ctl_deregister`. The variables are cleared whatever `ctl_deregister` returns. -/
def procfsCtlDeregister (deregister : Bool) (im : Image) : Image × List Event :=
  ({ im with gCtlRef := false, gCtlLock := false, gCtlGrp := false },
    releaseIf (im.gCtlRef && deregister) .ctl ++ releaseIf im.gCtlLock .ctlLock ++
      releaseIf im.gCtlGrp .ctlGrp)

def procfsSysctlRegister : List Event :=
  [.acquire .oidNode, .acquire .oidLinux, .acquire .oidLinuxVersion]

def procfsSysctlUnregister : List Event :=
  [.release .oidLinuxVersion, .release .oidLinux, .release .oidNode]

/-- `procfs_start`: whether it succeeds, the variables after it, and what happened. `vfs_fsadd`
calls `procfs_init` again, through the operations of the file system. -/
def procfsStart (o : StartOutcome) (im : Image) : Bool × Image × List Event :=
  let init := procfsInit o.tagalloc im
  if init.1 then
    if o.fsadd then
      let again := procfsInit o.tagalloc init.2.1
      let ctl := procfsCtlRegister o { again.2.1 with procfsVfsTableRef := true }
      (true, ctl.1, init.2.2 ++ [.acquire .fsentry] ++ again.2.2 ++ ctl.2 ++ procfsSysctlRegister)
    else
      let fini := procfsFini { init.2.1 with procfsVfsTableRef := false }
      (false, fini.1, init.2.2 ++ fini.2)
  else (false, init.2.1, init.2.2)

def procfsStop (o : StopOutcome) (im : Image) : Bool × Image × List Event :=
  if o.vmaUuid then
    let ctl := procfsCtlDeregister o.ctlDeregister im
    let down := procfsSysctlUnregister ++ ctl.2
    if ctl.1.procfsVfsTableRef && !o.fsremove then (false, ctl.1, down)
    else
      let fini := procfsFini ctl.1
      (true, fini.1, down ++ releaseIf ctl.1.procfsVfsTableRef .fsentry ++ fini.2)
  else (false, im, [])

/-! ## Runs -/

def nothing : Kind → Bool := fun _ => false

/-- The extension, if it is loaded, and all that has happened. `refused` is no variable of the
source: a `procfs_stop` came as far as `vfs_fsremove` and failed. -/
structure Machine where
  image : Option Image
  refused : Bool
  log : List Event

def Machine.init : Machine := ⟨none, false, []⟩

/-- What the kernel has now. -/
def Machine.live (m : Machine) : Kind → Bool := liveAfter nothing m.log

/-- The kernel starts and stops the extension. -/
inductive Act where
  | start (o : StartOutcome)
  | stop (o : StopOutcome)

/-- One step. An extension that does not start is unloaded, one that does not stop stays. There are
no two controls of the same name. -/
def step (m : Machine) : Act → Option Machine
  | .start o =>
    match m.image with
    | none =>
      let r := procfsStart { o with ctlRegister := o.ctlRegister && !m.live .ctl } Image.fresh
      some ⟨if r.1 then some r.2.1 else none, false, m.log ++ r.2.2⟩
    | some _ => none
  | .stop o =>
    match m.image with
    | some im =>
      let r := procfsStop o im
      some ⟨if r.1 then none else some r.2.1, m.refused || o.vmaUuid, m.log ++ r.2.2⟩
    | none => none

def runFrom (acts : List Act) : Option Machine := run step Machine.init acts

/-! ## What the states of a careful run look like -/

/-- The variables of an extension that is loaded, with or without its control. -/
def Image.loaded (ctl : Bool) : Image := ⟨true, true, true, true, true, ctl, ctl, ctl⟩

/-- What the kernel has then. -/
def loadedLive (ctl : Bool) : Kind → Bool
  | .ctlGrp | .ctlLock | .ctl => ctl
  | _ => true

/-- What it has after a `procfs_stop` that failed. -/
def refusedLive : Kind → Bool
  | .osmallocTag | .lckGrp | .hashMutex | .fsentry => true
  | _ => false

/-- The three kinds of states. -/
inductive Regular : Option Image → Bool → (Kind → Bool) → Prop where
  | unloaded (refused : Bool) : Regular none refused nothing
  | loaded (ctl : Bool) : Regular (some (Image.loaded ctl)) false (loadedLive ctl)
  | refused : Regular (some (Image.loaded false)) true refusedLive

/-- What `procfs_start` does to an extension that was just loaded. -/
theorem procfsStart_fresh (o : StartOutcome) :
    InOrder needs nothing (procfsStart o Image.fresh).2.2 ∧
      (((procfsStart o Image.fresh).1 = false ∧
          liveAfter nothing (procfsStart o Image.fresh).2.2 = nothing) ∨
        ∃ ctl, (procfsStart o Image.fresh).1 = true ∧
          (procfsStart o Image.fresh).2.1 = Image.loaded ctl ∧
          liveAfter nothing (procfsStart o Image.fresh).2.2 = loadedLive ctl) := by
  rcases o with ⟨_ | _, fsadd, grp, lock, reg⟩
  · exact ⟨trivial, Or.inl ⟨rfl, rfl⟩⟩
  · rcases fsadd with _ | _
    · -- `procfs_fini` undoes `procfs_init`
      have hevents : (procfsStart ⟨true, false, grp, lock, reg⟩ Image.fresh).2.2 =
          [.acquire .osmallocTag, .acquire .lckGrp, .acquire .hashMutex, .release .osmallocTag,
            .release .hashMutex, .release .lckGrp] := rfl
      rw [hevents]
      exact ⟨by decide, Or.inl ⟨rfl, by decide⟩⟩
    · refine ⟨?_, Or.inr ⟨grp && lock && reg, rfl, ?_, ?_⟩⟩
      · rcases grp with _ | _ <;> rcases lock with _ | _ <;> rcases reg with _ | _ <;> decide
      · rcases grp with _ | _ <;> rcases lock with _ | _ <;> rcases reg with _ | _ <;> rfl
      · rcases grp with _ | _ <;> rcases lock with _ | _ <;> rcases reg with _ | _ <;> decide

/-- A `procfs_stop` that goes wrong: one failed before, or the control is in use. -/
def Careless (m : Machine) (o : StopOutcome) : Prop :=
  ∃ im, m.image = some im ∧ o.vmaUuid = true ∧
    (m.refused = true ∨ im.gCtlRef = true ∧ o.ctlDeregister = false)

/-- What `procfs_stop` does to an extension that is loaded, if the control can be removed. -/
theorem procfsStop_loaded {o : StopOutcome} (ctl : Bool) (huuid : o.vmaUuid = true)
    (hctl : ctl = true → o.ctlDeregister = true) :
    InOrder needs (loadedLive ctl) (procfsStop o (Image.loaded ctl)).2.2 ∧
      (((procfsStop o (Image.loaded ctl)).1 = true ∧
          liveAfter (loadedLive ctl) (procfsStop o (Image.loaded ctl)).2.2 = nothing) ∨
        ((procfsStop o (Image.loaded ctl)).1 = false ∧
          (procfsStop o (Image.loaded ctl)).2.1 = Image.loaded false ∧
          liveAfter (loadedLive ctl) (procfsStop o (Image.loaded ctl)).2.2 = refusedLive)) := by
  rcases o with ⟨uuid, deregister, fsremove⟩
  obtain rfl : uuid = true := huuid
  rcases ctl with _ | _
  · rcases deregister with _ | _ <;> rcases fsremove with _ | _ <;> decide
  · obtain rfl : deregister = true := hctl rfl
    rcases fsremove with _ | _ <;> decide

/-- The control keeps its callbacks and loses its lock. -/
theorem procfsStop_inUse {o : StopOutcome} (huuid : o.vmaUuid = true)
    (hctl : o.ctlDeregister = false) :
    ¬ InOrder needs (loadedLive true) (procfsStop o (Image.loaded true)).2.2 := by
  rcases o with ⟨uuid, deregister, fsremove⟩
  obtain rfl : uuid = true := huuid
  obtain rfl : deregister = false := hctl
  rcases fsremove with _ | _ <;> decide

/-- The oids are removed once more. -/
theorem procfsStop_again {o : StopOutcome} (huuid : o.vmaUuid = true) :
    ¬ InOrder needs refusedLive (procfsStop o (Image.loaded false)).2.2 := by
  rcases o with ⟨uuid, deregister, fsremove⟩
  obtain rfl : uuid = true := huuid
  rcases deregister with _ | _ <;> rcases fsremove with _ | _ <;> decide

/-! ## One step, and a run -/

/-- The state is regular, and got so in order. -/
structure Orderly (m : Machine) : Prop where
  inOrder : InOrder needs nothing m.log
  regular : Regular m.image m.refused m.live

theorem orderly_init : Orderly Machine.init := ⟨trivial, .unloaded false⟩

theorem live_append (m : Machine) (image : Option Image) (refused : Bool) (es : List Event) :
    (Machine.mk image refused (m.log ++ es)).live = liveAfter m.live es :=
  liveAfter_append nothing m.log es

/-- A start keeps the order. -/
theorem Orderly.start {m m' : Machine} {o : StartOutcome} (h : Orderly m)
    (hstep : step m (.start o) = some m') : Orderly m' := by
  have hregular := h.regular
  -- it is not loaded twice
  cases himage : m.image with
  | some im =>
    simp only [step, himage] at hstep
    cases hstep
  | none =>
    simp only [step, himage] at hstep
    cases hstep
    rw [himage] at hregular
    -- nothing is left of the times before
    generalize hlive : m.live = live at hregular
    cases hregular
    rcases procfsStart_fresh { o with ctlRegister := o.ctlRegister && !nothing .ctl } with
      ⟨hin, ⟨hfail, hafter⟩ | ⟨ctl, hok, him, hafter⟩⟩
    · -- the start has failed, and has taken back what it had done
      refine ⟨inOrder_append.mpr ⟨h.inOrder, ?_⟩, ?_⟩
      · rw [← Machine.live, hlive]
        exact hin
      · rw [live_append, hlive, hfail, hafter]
        exact .unloaded false
    · -- all is there, with or without the control
      refine ⟨inOrder_append.mpr ⟨h.inOrder, ?_⟩, ?_⟩
      · rw [← Machine.live, hlive]
        exact hin
      · rw [live_append, hlive, hok, him, hafter]
        exact .loaded ctl

/-- The log after a stop, in order or not. -/
theorem inOrder_stop {m : Machine} {im : Image} {o : StopOutcome} {live : Kind → Bool}
    (h : InOrder needs nothing m.log) (hlive : m.live = live) :
    InOrder needs nothing (m.log ++ (procfsStop o im).2.2) ↔
      InOrder needs live (procfsStop o im).2.2 := by
  rw [inOrder_append, ← Machine.live, hlive]
  exact and_iff_right h

/-- A stop keeps the order unless it is careless. -/
theorem Orderly.stop {m m' : Machine} {o : StopOutcome} (h : Orderly m)
    (hstep : step m (.stop o) = some m') :
    (¬ Careless m o → Orderly m') ∧ (Careless m o → ¬ InOrder needs nothing m'.log) := by
  have hregular := h.regular
  cases himage : m.image with
  | none =>
    simp only [step, himage] at hstep
    cases hstep
  | some im =>
    simp only [step, himage] at hstep
    cases hstep
    have hcareless : Careless m o ↔ o.vmaUuid = true ∧
        (m.refused = true ∨ im.gCtlRef = true ∧ o.ctlDeregister = false) := by
      simp only [Careless, himage, Option.some.injEq, exists_eq_left']
    rw [hcareless]
    rw [himage] at hregular
    cases huuid : o.vmaUuid with
    | false =>
      -- nothing was done
      have hsame : procfsStop o im = (false, im, []) := by
        simp only [procfsStop, huuid, Bool.false_eq_true, if_false]
      refine ⟨fun _ => ?_, fun hbad => absurd hbad.1 (by simp)⟩
      rw [hsame, Bool.or_false, List.append_nil]
      exact ⟨h.inOrder, himage ▸ h.regular⟩
    | true =>
      rw [Bool.or_true]
      generalize hlive : m.live = live at hregular
      generalize hrefused : m.refused = refused at hregular
      cases hregular with
      | loaded ctl =>
        constructor
        · intro hcareful
          have hctl : ctl = true → o.ctlDeregister = true := by
            intro hctl
            rw [← Bool.not_eq_false]
            exact fun hfalse => hcareful ⟨rfl, Or.inr ⟨hctl, hfalse⟩⟩
          rcases procfsStop_loaded ctl huuid hctl with
            ⟨hin, ⟨hok, hafter⟩ | ⟨hfail, him, hafter⟩⟩
          · refine ⟨(inOrder_stop h.inOrder hlive).mpr hin, ?_⟩
            rw [live_append, hlive, hok, hafter]
            exact .unloaded true
          · refine ⟨(inOrder_stop h.inOrder hlive).mpr hin, ?_⟩
            rw [live_append, hlive, hfail, him, hafter]
            exact .refused
        · rintro ⟨-, hbad | ⟨hctl, hfalse⟩⟩
          · cases hbad
          · obtain rfl : ctl = true := hctl
            exact fun hin => procfsStop_inUse huuid hfalse ((inOrder_stop h.inOrder hlive).mp hin)
      | refused =>
        refine ⟨fun hcareful => absurd ⟨rfl, Or.inl rfl⟩ hcareful, fun _ hin => ?_⟩
        exact procfsStop_again huuid ((inOrder_stop h.inOrder hlive).mp hin)

/-- No stop of a run was careless. -/
def Careful (acts : List Act) : Prop :=
  ∀ bs t o, bs ++ [.stop o] <+: acts → runFrom bs = some t → ¬ Careless t o

theorem Careful.of_append {acts : List Act} {a : Act} (h : Careful (acts ++ [a])) : Careful acts :=
  fun bs t o hpre ht => h bs t o (hpre.trans (List.prefix_append acts [a])) ht

/-- The log only grows. -/
theorem log_prefix {m m' : Machine} {a : Act} (h : step m a = some m') : m.log <+: m'.log := by
  cases a with
  | start o =>
    cases himage : m.image <;> simp only [step, himage] at h <;> cases h
    exact List.prefix_append _ _
  | stop o =>
    cases himage : m.image <;> simp only [step, himage] at h <;> cases h
    exact List.prefix_append _ _

theorem orderly_of_careful {acts : List Act} {m : Machine} (h : runFrom acts = some m)
    (hcareful : Careful acts) : Orderly m := by
  refine run_induction (P := fun acts m => Careful acts → Orderly m) ?_ ?_ h hcareful
  · exact fun _ => orderly_init
  · intro acts t a t' hrun ih hstep hcareful
    have ht : Orderly t := ih hcareful.of_append
    cases a with
    | start o => exact ht.start hstep
    | stop o => exact (ht.stop hstep).1 (hcareful acts t o List.prefix_rfl hrun)

/-- A run in order has no careless stop: after the first one the log is not in order any more. -/
theorem careful_of_inOrder {acts : List Act} {m : Machine} (h : runFrom acts = some m)
    (hin : InOrder needs nothing m.log) : Careful acts := by
  refine run_induction (P := fun acts m => InOrder needs nothing m.log → Careful acts) ?_ ?_ h hin
  · intro _ bs t o hpre
    simp at hpre
  · intro acts t a t' hrun ih hstep hin
    have hlog := log_prefix hstep
    rcases hlog with ⟨es, hes⟩
    have hcareful : Careful acts := ih (inOrder_append.mp (hes ▸ hin)).1
    intro bs u o hpre hu
    rcases List.prefix_concat_iff.mp hpre with heq | hpre
    · -- it is the last step
      rcases List.append_inj' heq rfl with ⟨rfl, ha⟩
      cases ha
      obtain rfl : t = u := Option.some.inj (hrun.symm.trans hu)
      exact fun hbad => ((orderly_of_careful hrun hcareful).stop hstep).2 hbad hin
    · exact hcareful bs u o hpre hu

/-- All that was acquired was released in order, whatever is there has all it needs at every
moment, and nothing is there while the extension is not loaded. -/
structure Tidy (m : Machine) : Prop where
  inOrder : InOrder needs nothing m.log
  supported : ∀ pre, pre <+: m.log → Supported needs (liveAfter nothing pre)
  nothingLeft : m.image = none → m.live = nothing

/-- In every run, whatever fails: the extension keeps its resources tidy if and only if no
`procfs_stop` follows one that failed in `vfs_fsremove`, and none comes while a daemon uses the
control. -/
theorem tidy_iff_careful {acts : List Act} {m : Machine} (h : runFrom acts = some m) :
    Tidy m ↔ Careful acts := by
  constructor
  · -- a careless stop leaves a log that is not in order
    exact fun htidy => careful_of_inOrder h htidy.inOrder
  · intro hcareful
    have horderly := orderly_of_careful h hcareful
    have hempty : Supported needs nothing := by
      intro k hk
      cases hk
    refine ⟨horderly.inOrder, fun pre hpre => horderly.inOrder.supported hempty hpre, ?_⟩
    -- when the extension is unloaded nothing is left
    intro himage
    have hregular := horderly.regular
    rw [himage] at hregular
    generalize hlive : m.live = live at hregular
    cases hregular
    rfl

/-- Everything succeeds, but for the first `vfs_fsremove`: the file system was still mounted. -/
def retried : List Act :=
  [.start ⟨true, true, true, true, true⟩, .stop ⟨true, true, false⟩, .stop ⟨true, true, true⟩]

/-- The second attempt unloads the extension and removes its oids twice. -/
theorem tidy_iff_careful_retried :
    ∃ m, runFrom retried = some m ∧ m.image = none ∧ ¬ Tidy m := by
  refine ⟨_, rfl, rfl, fun htidy => ?_⟩
  have hcareful : Careful retried := (tidy_iff_careful rfl).mp htidy
  exact hcareful (retried.take 2) _ ⟨true, true, true⟩ List.prefix_rfl rfl
    ⟨_, rfl, rfl, Or.inl rfl⟩

end ProcFS.Lifecycle
