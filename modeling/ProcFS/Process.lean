import Mathlib.Algebra.Group.Nat.Defs
import ProcFS.Types

/-!
# ProcFS.Process — processes as the kernel extension sees them

The process table reached through `proc_find`, the access check, the pid scan
behind the root directory, the thread and descriptor lists obtained from the
daemon, and the conversions between pids and names.

* `getPidsLoop_visible`: every pid of the scan is that of a live process that passed the test.
* `procfsAtoi_fmtInt`: `procfs_atoi` reads back what `"%d"` printed.
* `procfsAtoi_processEntryName`: and finds the pid in the name of a process.
-/

namespace ProcFS

/-! ## The process table -/

/-- What the modelled code reads of a process: its pid and name, its
effective and real ids, and the daemon's answers for its threads and open
descriptors. -/
structure Proc where
  pPid : Int32
  pComm : CString
  pUid : ℕ
  pRuid : ℕ
  pGid : ℕ
  pRgid : ℕ
  threadReply : Except Errno (List UInt64)
  fdReply : Except Errno (List Int32)

/-- A process table: `proc_find` reports whether a pid is live. A live pid is
never negative and the process found under it carries it. -/
structure ProcTable where
  procFind : Int32 → Option Proc
  pid_eq : ∀ pid p, procFind pid = some p → p.pPid = pid
  pid_nonneg : ∀ pid p, procFind pid = some p → 0 ≤ pid

/-- The table in which one process is live. -/
def ProcTable.single (p : Proc) (h : 0 ≤ p.pPid) : ProcTable where
  procFind pid := if pid = p.pPid then some p else none
  pid_eq pid q hq := by
    rw [Option.ite_none_right_eq_some] at hq
    obtain ⟨hpid, hq⟩ := hq
    cases hq
    exact hpid.symm
  pid_nonneg pid q hq := by
    rw [Option.ite_none_right_eq_some] at hq
    rw [hq.1]
    exact h

/-- A shell with pid 7, owned by user 501, with two threads and two descriptors. -/
def shProc : Proc := ⟨7, cstr "sh", 501, 501, 20, 20, .ok [11, 12], .ok [0, 1]⟩

/-- Which of the allocations made while listing succeed. -/
structure Allocs where
  pidList : Bool
  threadBounce : Bool
  threadCopy : Bool
  fdBuffer : Bool
deriving DecidableEq, Repr

/-- No process is found under `PRNODE_NO_PID`. -/
@[simp] theorem ProcTable.procFind_noPid (pt : ProcTable) : pt.procFind prnodeNoPid = none := by
  cases h : pt.procFind prnodeNoPid with
  | none => rfl
  | some p =>
    have hneg := pt.pid_nonneg _ _ h
    exact absurd hneg (by decide)

/-! ## Access -/

/-- `procfs_check_can_access_process`: the effective user id must match the
effective or real user id of the process, or the effective group id one of
its group ids. -/
def procfsCheckCanAccessProcess (creds : Cred) (p : Proc) : Option Errno :=
  let error := if creds.crUid = p.pUid ∨ creds.crUid = p.pRuid then none else some Errno.EACCES
  if error ≠ none ∧ (creds.crGid = p.pGid ∨ creds.crGid = p.pRgid) then none else error

def procfsCheckCanAccessProcPid (pt : ProcTable) (creds : Cred) (pid : Int32) : Option Errno :=
  match pt.procFind pid with
  | some p => procfsCheckCanAccessProcess creds p
  | none => some .ESRCH

/-! ## The pid scan -/

def procfsMaxPid : ℕ := 99999

def procfsMaxProcs : ℕ := 1024

/-- The test a found process must pass to be collected; `creds` is NULL
(`none`) when no access check applies. -/
def pidVisible (creds : Option Cred) (p : Proc) : Bool :=
  match creds with
  | none => true
  | some c => procfsCheckCanAccessProcess c p == none

/-- The `for` loop of `procfs_get_pids`, with `n` pids still to try from `pid`
on and `count` pids collected so far. -/
def getPidsLoop (pt : ProcTable) (creds : Option Cred) : ℕ → ℕ → ℕ → List Int32
  | 0, _, _ => []
  | n + 1, pid, count =>
    if count < procfsMaxProcs then
      match pt.procFind (Int32.ofNat pid) with
      | some p =>
        if pidVisible creds p then
          Int32.ofNat pid :: getPidsLoop pt creds n (pid + 1) (count + 1)
        else getPidsLoop pt creds n (pid + 1) count
      | none => getPidsLoop pt creds n (pid + 1) count
    else []

/-- `procfs_get_pids`: no pids at all when the list cannot be allocated. -/
def procfsGetPids (pt : ProcTable) (mem : Allocs) (creds : Option Cred) : List Int32 :=
  if mem.pidList then getPidsLoop pt creds (procfsMaxPid + 1) 0 0 else []

/-- Every pid the scan returns belongs to a live process that passed the test. -/
theorem getPidsLoop_visible {pt : ProcTable} {creds : Option Cred} {n pid count : ℕ}
    {i : Int32} (h : i ∈ getPidsLoop pt creds n pid count) :
    ∃ p, pt.procFind i = some p ∧ pidVisible creds p = true := by
  induction n generalizing pid count with
  | zero => simp [getPidsLoop] at h
  | succ n ih =>
    unfold getPidsLoop at h
    split at h
    · split at h
      · rename_i p hp
        split at h
        · rename_i hv
          rcases List.mem_cons.mp h with rfl | h
          · exact ⟨p, hp, hv⟩
          · exact ih h
        · exact ih h
      · exact ih h
    · simp at h

/-! ## Thread and descriptor lists -/

/-- `procfs_get_thread_ids_for_task`: the ids come from the daemon through a
bounce buffer. A denied request is reported as `EPERM`; no daemon, any other
error and an empty reply all end in `ENOTSUP`. -/
def procfsGetThreadIdsForTask (mem : Allocs) (p : Proc) : Except Errno (List UInt64) :=
  if mem.threadBounce then
    match p.threadReply with
    | .ok (id :: ids) => if mem.threadCopy then .ok (id :: ids) else .error .ENOMEM
    | .ok [] => .error .ENOTSUP
    | .error .EPERM => .error .EPERM
    | .error _ => .error .ENOTSUP
  else .error .ENOTSUP

def procfsGetFdList (mem : Allocs) (p : Proc) : Except Errno (List Int32) :=
  if mem.fdBuffer then p.fdReply else .error .ENOMEM

/-! ## Names -/

def maxcomlen : ℕ := 16

/-- `procfs_construct_process_dir_name`: the pid, a blank and the command name. -/
def procfsConstructProcessDirName (p : Proc) : CString :=
  fmtInt p.pPid.toInt ++ cstr " " ++ p.pComm.take maxcomlen

/-- `procfs_atoi`: the value, or -1 when the first character is not a digit,
and the string that `*end_ptr` points to. -/
def procfsAtoi (p : CString) : Int32 × CString :=
  let r := scanDigits 0 p
  (if r.2.length = p.length then -1 else r.1, r.2)

/-- The name of a process in a directory of processes: its number, or number
and command name where processes are listed by name. -/
def processEntryName (type : PfsType) (p : Proc) : CString :=
  if type = .procnamedir then procfsConstructProcessDirName p else fmtInt p.pPid.toInt

/-! ## Numbers read back from names -/

/-- The byte of a digit character. -/
theorem digit_byte {c : Char} (h : c.isDigit = true) :
    c.toNat.toUInt8.toNat = c.toNat ∧ isDigit c.toNat.toUInt8 = true := by
  have hrange : 48 ≤ c.toNat ∧ c.toNat ≤ 57 := by
    simp only [Char.isDigit, Bool.and_eq_true, decide_eq_true_eq] at h
    exact h
  have hbyte : c.toNat.toUInt8.toNat = c.toNat := by
    simp only [Nat.toUInt8, UInt8.toNat_ofNat']
    omega
  refine ⟨hbyte, ?_⟩
  simp only [isDigit, Bool.and_eq_true, decide_eq_true_eq, UInt8.le_iff_toNat_le, hbyte]
  exact hrange

/-- One round of the digit loop, in numbers. -/
theorem ofNat_digit_step {b : UInt8} (h : isDigit b = true) (v : ℕ) :
    Int32.ofNat v * 10 + (Int32.ofNat b.toNat - 48) = Int32.ofNat (10 * v + (b.toNat - 48)) := by
  have hrange : 48 ≤ b.toNat := by
    simp only [isDigit, Bool.and_eq_true, decide_eq_true_eq, UInt8.le_iff_toNat_le] at h
    exact h.1
  obtain ⟨d, hd⟩ := Nat.exists_eq_add_of_le hrange
  have hlit : Int32.ofNat 48 = 48 ∧ Int32.ofNat 10 = 10 := ⟨rfl, rfl⟩
  rw [hd, Nat.add_sub_cancel_left, Int32.ofNat_add, Int32.ofNat_add, Int32.ofNat_mul, hlit.1,
    hlit.2, Int32.mul_comm, Int32.add_comm 48, Int32.add_sub_cancel]

/-- The digit loop reads a run of digits in one go. -/
theorem scanDigits_chars {cs : List Char} (h : ∀ c ∈ cs, c.isDigit = true) (v : ℕ)
    (rest : CString) :
    scanDigits (Int32.ofNat v) (cs.map (fun c => c.toNat.toUInt8) ++ rest) =
      scanDigits (Int32.ofNat (Nat.ofDigitChars 10 cs v)) rest := by
  induction cs generalizing v with
  | nil => rfl
  | cons c cs ih =>
    have hc := digit_byte (h c List.mem_cons_self)
    have hzero : '0'.toNat = 48 := rfl
    simp only [List.map_cons, List.cons_append, scanDigits, hc.2, if_true, ofNat_digit_step hc.2]
    rw [ih (fun c' hc' => h c' (List.mem_cons_of_mem c hc')), Nat.ofDigitChars_cons, hc.1, hzero]

/-- The digit loop stops at once before anything but a digit. -/
theorem scanDigits_stop {rest : CString} (h : rest.head?.any isDigit = false) (v : Int32) :
    scanDigits v rest = (v, rest) := by
  cases rest with
  | nil => rfl
  | cons c cs =>
    have hc : isDigit c = false := h
    simp [scanDigits, hc]

/-- The value of a run of decimal digits. -/
def decimalValue (digits : CString) : ℕ := digits.foldl (fun v b => 10 * v + (b.toNat - 48)) 0

/-- The digit loop reads the value of the leading digits modulo `2^32`. -/
theorem scanDigits_eq (name : CString) (v : ℕ) :
    scanDigits (Int32.ofNat v) name =
      (Int32.ofNat ((name.takeWhile isDigit).foldl (fun v b => 10 * v + (b.toNat - 48)) v),
        name.dropWhile isDigit) := by
  induction name generalizing v with
  | nil => rfl
  | cons b name ih =>
    by_cases hb : isDigit b = true
    · rw [List.takeWhile_cons_of_pos hb, List.dropWhile_cons_of_pos hb, List.foldl_cons, ← ih,
        scanDigits, if_pos hb, ofNat_digit_step hb]
    · rw [Bool.not_eq_true] at hb
      rw [scanDigits_stop (by simpa using hb)]
      simp [hb]

theorem fmtNat_ne_nil (n : ℕ) : fmtNat n ≠ [] := by
  have hpos : 0 < (Nat.toDigits 10 n).length := Nat.length_toDigits_pos
  intro h
  rw [fmtNat, List.map_eq_nil_iff] at h
  simp [h] at hpos

theorem length_fmtNat_le {n : ℕ} (h : n < 10 ^ 10) : (fmtNat n).length ≤ 10 := by
  rw [fmtNat, List.length_map]
  exact (Nat.length_toDigits_le_iff (by decide) (by decide)).mpr h

theorem fmtNat_head_isDigit (n : ℕ) (rest : CString) :
    (fmtNat n ++ rest).head?.any isDigit = true := by
  have hdigits : ∀ c ∈ Nat.toDigits 10 n, c.isDigit = true := fun c =>
    Nat.isDigit_of_mem_toDigits (by decide) (by decide)
  have hne := fmtNat_ne_nil n
  unfold fmtNat at hne ⊢
  cases hcs : Nat.toDigits 10 n with
  | nil => simp [hcs] at hne
  | cons c cs =>
    rw [hcs] at hdigits
    simpa using (digit_byte (hdigits c List.mem_cons_self)).2

/-- `procfs_atoi` reads back what `"%u"` printed, up to the first character that
is not a digit. -/
theorem procfsAtoi_fmtNat (n : ℕ) {rest : CString} (h : rest.head?.any isDigit = false) :
    procfsAtoi (fmtNat n ++ rest) = (Int32.ofNat n, rest) := by
  have hdigits : ∀ c ∈ Nat.toDigits 10 n, c.isDigit = true := fun c =>
    Nat.isDigit_of_mem_toDigits (by decide) (by decide)
  have hscan : scanDigits 0 (fmtNat n ++ rest) = (Int32.ofNat n, rest) := by
    have hrun := scanDigits_chars hdigits 0 rest
    rw [Nat.ofDigitChars_ten_toDigits, scanDigits_stop h] at hrun
    exact hrun
  have hlen : rest.length ≠ (fmtNat n ++ rest).length := by
    have hpos := List.length_pos_iff.mpr (fmtNat_ne_nil n)
    rw [List.length_append]
    omega
  simp only [procfsAtoi, hscan, if_neg hlen]

theorem toInt_nonneg {i : Int32} (h : 0 ≤ i) : 0 ≤ i.toInt := by
  have h0 : (0 : Int32).toInt ≤ i.toInt := Int32.le_iff_toInt_le.mp h
  exact h0

theorem fmtInt_of_nonneg {n : ℤ} (h : 0 ≤ n) : fmtInt n = fmtNat n.natAbs := by
  rw [fmtInt, if_neg (not_lt.mpr h)]

/-- An `int` that is not negative is the number it prints as. -/
theorem ofNat_natAbs_toInt {i : Int32} (h : 0 ≤ i) : Int32.ofNat i.toInt.natAbs = i := by
  have h0 := toInt_nonneg h
  have hlt : i.toInt < 2 ^ 31 := Int32.toInt_lt i
  apply Int32.toInt_inj.mp
  rw [Int32.toInt_ofNat_of_lt (by omega)]
  omega

/-- `procfs_atoi` reads back what `"%d"` printed. -/
theorem procfsAtoi_fmtInt {i : Int32} (h : 0 ≤ i) : procfsAtoi (fmtInt i.toInt) = (i, []) := by
  have hread := @procfsAtoi_fmtNat i.toInt.natAbs [] rfl
  rw [List.append_nil, ofNat_natAbs_toInt h] at hread
  rw [fmtInt_of_nonneg (toInt_nonneg h), hread]

/-- The name of a process starts with its pid. -/
theorem processEntryName_eq (type : PfsType) {p : Proc} (hpid : 0 ≤ p.pPid) :
    ∃ rest, processEntryName type p = fmtNat p.pPid.toInt.natAbs ++ rest ∧
      rest.head?.any isDigit = false ∧ rest.length ≤ maxcomlen + 1 ∧
      (type ≠ .procnamedir → rest = []) := by
  have hname := fmtInt_of_nonneg (toInt_nonneg hpid)
  by_cases htype : type = .procnamedir
  · refine ⟨cstr " " ++ p.pComm.take maxcomlen, ?_, rfl, ?_, fun h => absurd htype h⟩
    · simp only [processEntryName, htype, if_true, procfsConstructProcessDirName, hname,
        List.append_assoc]
    · have hcstr : (cstr " ").length = 1 := rfl
      rw [List.length_append, List.length_take, hcstr]
      omega
  · refine ⟨[], ?_, rfl, by simp, fun _ => rfl⟩
    simp only [processEntryName, if_neg htype, hname, List.append_nil]

theorem processEntryName_digit (type : PfsType) {p : Proc} (hpid : 0 ≤ p.pPid) :
    (processEntryName type p).head?.any isDigit = true ∧
    (processEntryName type p).length ≤ maxcomlen + 11 := by
  obtain ⟨rest, heq, -, hlen, -⟩ := processEntryName_eq type hpid
  have hlt : p.pPid.toInt < 2 ^ 31 := Int32.toInt_lt p.pPid
  have hge : -2 ^ 31 ≤ p.pPid.toInt := Int32.le_toInt p.pPid
  have hdigits : (fmtNat p.pPid.toInt.natAbs).length ≤ 10 := length_fmtNat_le (by omega)
  rw [heq, List.length_append]
  exact ⟨fmtNat_head_isDigit _ _, by omega⟩

/-- `procfs_atoi` finds the pid in the name of a process. -/
theorem procfsAtoi_processEntryName (type : PfsType) {p : Proc} (hpid : 0 ≤ p.pPid) :
    (procfsAtoi (processEntryName type p)).1 = p.pPid ∧
    (type ≠ .procnamedir → (procfsAtoi (processEntryName type p)).2 = []) := by
  obtain ⟨rest, heq, hrest, -, hnil⟩ := processEntryName_eq type hpid
  rw [heq, procfsAtoi_fmtNat _ hrest, ofNat_natAbs_toInt hpid]
  exact ⟨rfl, hnil⟩

end ProcFS
