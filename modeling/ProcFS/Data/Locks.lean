import Mathlib.Data.List.Infix
import ProcFS.Lib.Visit
import ProcFS.Text
import ProcFS.Transfer

/-!
# ProcFS.Data.Locks — the locks of all files

`/proc/locks` goes through the vnodes of all mounts. A vnode's locks are copied while its mutex is
held, and printed afterwards, so what each visit finds is whatever the vnode's list was at that
time; nothing here depends on it. At most 128 locks of a vnode are copied, and at most 1024 are
printed.

* `emitLocks_eq`: as many are printed as still fit.
* `readLocks_lockLines`: the text is read back.
* `locks_read_back`: which locks a program reads, and when these are all.
-/

namespace ProcFS.Data

open Lib

/-! ## What a visit finds -/

/-- `struct lockf`, as far as it is read. An owner is known by its `proc_pid`. -/
structure Lockf where
  flags : Int16
  type : Int16
  start : Int64
  stop : Int64
  owner : Option Int32
deriving DecidableEq, Repr

/-- What `vnode_getattr` says, if it succeeds: the attributes that are supported. -/
structure FileIdentity where
  fileid : Option UInt64
  fsid : Option UInt32
deriving DecidableEq, Repr

/-- A vnode as the callback finds it. -/
structure LockedVnode where
  lockf : List Lockf
  attr : Option FileIdentity
deriving DecidableEq, Repr

/-- `struct procfs_lockrec`. -/
structure Lockrec where
  flags : Int16
  type : Int16
  start : Int64
  stop : Int64
  pid : Int32
deriving DecidableEq, Repr

/-- `PROCFS_LOCKS_MAX` and `PROCFS_LOCKS_PER_VNODE`. -/
def locksMax : ℕ := 1024
def locksPerVnode : ℕ := 128

def Lockf.lockrec (lf : Lockf) : Lockrec :=
  ⟨lf.flags, lf.type, lf.start, lf.stop, lf.owner.getD (-1)⟩

/-- The copy that is made under the mutex. -/
def LockedVnode.snapshot (vp : LockedVnode) : List Lockrec :=
  (vp.lockf.take locksPerVnode).map Lockf.lockrec

/-- `major`, `minor` and the number of the file. -/
structure DevIno where
  vmaj : UInt32
  vmin : UInt32
  ino : UInt64
deriving DecidableEq, Repr

def LockedVnode.devIno (vp : LockedVnode) : DevIno :=
  match vp.attr with
  | none => ⟨0, 0, 0⟩
  | some va =>
    let fsid := va.fsid.getD 0
    ⟨(fsid >>> 24) &&& 0xff, fsid &&& 0xffffff, va.fileid.getD 0⟩

/-! ## The text -/

inductive LockClass where
  | ofd
  | flock
  | posix
deriving DecidableEq, Repr

inductive LockMode where
  | write
  | read
  | unlck
deriving DecidableEq, Repr

/-- `F_OFD_LOCK` is looked at before `F_FLOCK`. -/
def Lockrec.lockClass (r : Lockrec) : LockClass :=
  if r.flags &&& 0x400 ≠ 0 then .ofd else if r.flags &&& 0x020 ≠ 0 then .flock else .posix

/-- `F_WRLCK` and `F_RDLCK`. -/
def Lockrec.lockMode (r : Lockrec) : LockMode :=
  if r.type = 3 then .write else if r.type = 1 then .read else .unlck

def LockClass.text : LockClass → CString
  | .ofd => cstr "OFDLCK"
  | .flock => cstr "FLOCK "
  | .posix => cstr "POSIX "

def LockMode.text : LockMode → CString
  | .write => cstr "WRITE"
  | .read => cstr "READ"
  | .unlck => cstr "UNLCK"

/-- The line of a lock: `"%d: %s ADVISORY  %-5s %d %02x:%02x:%llu %lld "`, and then its end. -/
def lockLine (id : DevIno) (r : Lockrec) (n : ℕ) : CString :=
  fmtNat n ++ cstr ": " ++ r.lockClass.text ++ cstr " ADVISORY  " ++
    padRight 32 5 r.lockMode.text ++ cstr " " ++ fmtInt r.pid.toInt ++ cstr " " ++
    hexField false 2 id.vmaj.toNat ++ cstr ":" ++ hexField false 2 id.vmin.toNat ++ cstr ":" ++
    fmtNat id.ino.toNat ++ cstr " " ++ fmtInt r.start.toInt ++ cstr " " ++
    (if r.stop = -1 then cstr "EOF\n" else fmtInt r.stop.toInt ++ cstr "\n")

/-- `struct procfs_locks_ctx`: the text and the number of its lines. -/
structure LocksCtx where
  sb : CString
  emitted : ℕ
deriving DecidableEq, Repr

/-- The loop over the copied locks. -/
def emitLocks (id : DevIno) : List Lockrec → LocksCtx → LocksCtx
  | [], c => c
  | r :: recs, c =>
    if c.emitted < locksMax then
      emitLocks id recs ⟨c.sb ++ lockLine id r (c.emitted + 1), c.emitted + 1⟩
    else c

/-- `procfs_locks_vnode_cb`, and whether it returns `VNODE_RETURNED_DONE`. -/
def procfsLocksVnodeCb (vp : LockedVnode) (c : LocksCtx) : LocksCtx × Bool :=
  if locksMax ≤ c.emitted then (c, true)
  else (emitLocks vp.devIno vp.snapshot c, false)

/-- `procfs_locks_mount_cb`, and whether it returns `VFS_RETURNED_DONE`. -/
def procfsLocksMountCb (mp : List LockedVnode) (c : LocksCtx) : LocksCtx × Bool :=
  (visit procfsLocksVnodeCb mp c, decide (locksMax ≤ (visit procfsLocksVnodeCb mp c).emitted))

/-- `procfs_build_locks`; `osMalloc` says whether there is memory for the copies. -/
def procfsBuildLocks (osMalloc : Bool) (mounts : List (List LockedVnode)) : CString :=
  if osMalloc then (visit procfsLocksMountCb mounts ⟨[], 0⟩).sb else []

/-- `procfs_dolocks`, up to `procfs_copy_data`. -/
def procfsDolocks (sbufNew osMalloc : Bool) (mounts : List (List LockedVnode)) :
    Except Int32 CString :=
  if sbufNew then .ok (procfsBuildLocks osMalloc mounts) else .error Transfer.enomem

/-! ## What is collected -/

/-- A lock that is shown, with the file it is on. -/
abbrev ShownLock := DevIno × Lockrec

/-- The locks of a vnode, and those that the callback has of it. -/
def LockedVnode.locks (vp : LockedVnode) : List ShownLock :=
  vp.lockf.map fun lf => (vp.devIno, lf.lockrec)
def LockedVnode.copied (vp : LockedVnode) : List ShownLock :=
  vp.snapshot.map fun r => (vp.devIno, r)

theorem LockedVnode.copied_eq (vp : LockedVnode) : vp.copied = vp.locks.take locksPerVnode := by
  rw [copied, snapshot, List.map_map, locks, ← List.map_take]
  rfl

def lockLines (n : ℕ) (ls : List ShownLock) : CString :=
  (ls.zipIdx n).flatMap fun (l, k) => lockLine l.1 l.2 k

/-- The context in which these locks were printed. -/
def ctxOf (ls : List ShownLock) : LocksCtx := ⟨lockLines 1 ls, ls.length⟩

theorem ctxOf_concat (ls : List ShownLock) (l : ShownLock) :
    ctxOf (ls ++ [l]) = ⟨(ctxOf ls).sb ++ lockLine l.1 l.2 (ls.length + 1), ls.length + 1⟩ := by
  rw [ctxOf, lockLines, List.zipIdx_append, List.flatMap_append, List.length_append, Nat.add_comm 1]
  simp [ctxOf, lockLines]

/-- The loop prints as many as still fit. -/
theorem emitLocks_eq (id : DevIno) (recs : List Lockrec) {ls : List ShownLock}
    (hls : ls.length ≤ locksMax) :
    emitLocks id recs (ctxOf ls) = ctxOf ((ls ++ recs.map fun r => (id, r)).take locksMax) := by
  induction recs generalizing ls with
  | nil => rw [emitLocks, List.map_nil, List.append_nil, List.take_of_length_le hls]
  | cons r recs ih =>
    rw [emitLocks]
    split
    · rename_i hlt
      have hlen : (ls ++ [(id, r)]).length ≤ locksMax := by
        rw [List.length_append]
        exact hlt
      have hprinted := ctxOf_concat ls (id, r)
      rw [show (ctxOf ls).emitted = ls.length from rfl, ← hprinted, ih hlen, List.append_assoc,
        List.map_cons, List.singleton_append]
    · rename_i hge
      have hfull : locksMax ≤ ls.length := Nat.le_of_not_lt hge
      rw [List.take_append_of_le_length hfull, List.take_of_length_le hls]

theorem collects_vnodeCb : Collects ctxOf locksMax LockedVnode.copied procfsLocksVnodeCb where
  adds vp ls hls := by
    rw [procfsLocksVnodeCb]
    split
    · rename_i hfull
      rw [List.take_append_of_le_length hfull, List.take_of_length_le hls]
    · exact emitLocks_eq vp.devIno vp.snapshot hls
  full vp ls hls hdone := by
    rw [procfsLocksVnodeCb] at hdone
    split at hdone
    · rename_i hfull
      rw [List.length_append]
      exact Nat.le_add_right_of_le hfull
    · cases hdone

theorem collects_mountCb :
    Collects ctxOf locksMax (fun mp => mp.flatMap LockedVnode.copied) procfsLocksMountCb :=
  collects_vnodeCb.nested id (fun c => decide (locksMax ≤ c.emitted)) fun _ hfull =>
    of_decide_eq_true hfull

/-- What the text shows: of each vnode the first 128 locks, and 1024 in all. -/
def shownLocks (mounts : List (List LockedVnode)) : List ShownLock :=
  ((mounts.flatten.flatMap LockedVnode.copied).take locksMax)

theorem procfsBuildLocks_eq (mounts : List (List LockedVnode)) :
    procfsBuildLocks true mounts = lockLines 1 (shownLocks mounts) := by
  have hvisit := collects_mountCb.visit_eq mounts (List.length_nil.trans_le (Nat.zero_le _))
  have hflat : mounts.flatMap (fun mp => mp.flatMap LockedVnode.copied) =
      mounts.flatten.flatMap LockedVnode.copied := by
    rw [List.flatten_eq_flatMap, List.flatMap_assoc]
    rfl
  rw [List.nil_append, hflat] at hvisit
  exact congrArg LocksCtx.sb hvisit

/-! ## Reading the text -/

/-- A line of `/proc/locks`. -/
structure LockEntry where
  number : ℕ
  lockClass : LockClass
  lockMode : LockMode
  pid : ℤ
  vmaj : ℕ
  vmin : ℕ
  ino : ℕ
  start : ℤ
  /-- `none` is the end of the file. -/
  stop : Option ℤ
deriving DecidableEq, Repr

/-- The text of a class without the blank that fills it up. -/
def LockClass.word : LockClass → CString
  | .ofd => cstr "OFDLCK"
  | .flock => cstr "FLOCK"
  | .posix => cstr "POSIX"

def readLockClass (w : CString) : Option LockClass :=
  [.ofd, .flock, .posix].find? fun c => LockClass.word c = w

def readLockMode (w : CString) : Option LockMode :=
  [.write, .read, .unlck].find? fun m => LockMode.text m = w

def readLockEnd (w : CString) : Option (Option ℤ) :=
  if w = cstr "EOF" then some none else (readInt w).map some

/-- `maj:min:ino`. -/
def readDevIno (w : CString) : Option (ℕ × ℕ × ℕ) := do
  let vmaj ← cutFirst 58 w
  let vmin ← cutFirst 58 vmaj.2
  return (← readHex vmaj.1, ← readHex vmin.1, ← readNat vmin.2)

def readLockLine (line : CString) : Option LockEntry :=
  match words 32 line with
  | [number, lockClass, _, lockMode, pid, file, start, stop] => do
    let number ← cutFirst 58 number
    let file ← readDevIno file
    return ⟨← readNat number.1, ← readLockClass lockClass, ← readLockMode lockMode, ← readInt pid,
      file.1, file.2.1, file.2.2, ← readInt start, ← readLockEnd stop⟩
  | _ => none

def readLocks (text : CString) : Option (List LockEntry) := (linesOf 10 text).mapM readLockLine

/-- What there is to read about the lock with the given number. -/
def lockEntry (l : ShownLock) (n : ℕ) : LockEntry where
  number := n
  lockClass := l.2.lockClass
  lockMode := l.2.lockMode
  pid := l.2.pid.toInt
  vmaj := l.1.vmaj.toNat
  vmin := l.1.vmin.toNat
  ino := l.1.ino.toNat
  start := l.2.start.toInt
  stop := if l.2.stop = -1 then none else some l.2.stop.toInt

theorem LockClass.text_eq (c : LockClass) : c.text = padRight 32 6 c.word := by
  cases c <;> rfl

def devInoWord (id : DevIno) : CString :=
  hexField false 2 id.vmaj.toNat ++
    58 :: (hexField false 2 id.vmin.toNat ++ 58 :: fmtNat id.ino.toNat)

def lockEndWord (stop : Int64) : CString := if stop = -1 then cstr "EOF" else fmtInt stop.toInt

/-- The words of a line but the last, with the blanks behind them. -/
def lockColumns (id : DevIno) (r : Lockrec) (n : ℕ) : List (CString × ℕ) :=
  [(fmtNat n ++ [58], 0), (r.lockClass.word, 6 - r.lockClass.word.length), (cstr "ADVISORY", 1),
    (r.lockMode.text, 5 - r.lockMode.text.length), (fmtInt r.pid.toInt, 0), (devInoWord id, 0),
    (fmtInt r.start.toInt, 0)]

def lockBody (id : DevIno) (r : Lockrec) (n : ℕ) : CString :=
  columns 32 (lockColumns id r n) ++ lockEndWord r.stop

theorem lockLine_eq (id : DevIno) (r : Lockrec) (n : ℕ) :
    lockLine id r n = lockBody id r n ++ [10] := by
  have hend : (if r.stop = -1 then cstr "EOF\n" else fmtInt r.stop.toInt ++ cstr "\n") =
      lockEndWord r.stop ++ [10] := by
    rw [lockEndWord]
    split <;> rfl
  have hblank : cstr " " = [32] := rfl
  have hcolon : cstr ":" = [58] := rfl
  have hnumber : cstr ": " = [58, 32] := rfl
  have hadvisory : cstr " ADVISORY  " = 32 :: (cstr "ADVISORY" ++ [32, 32]) := rfl
  rw [lockLine, hend, LockClass.text_eq, hblank, hcolon, hnumber, hadvisory]
  simp [lockBody, columns, lockColumns, devInoWord, padRight, List.replicate_succ']

/-! ### No word has a blank or a newline in it -/

section Clean

variable {sep : UInt8} (hsep : sep = 32 ∨ sep = 10)

include hsep

/-- Numbers and the signs between them are neither. -/
theorem blank_or_newline : isHex sep = false ∧ isDec sep = false ∧ sep ≠ 45 ∧ sep ≠ 58 := by
  rcases hsep with rfl | rfl <;> decide

theorem notMem_lockWords (c : LockClass) (m : LockMode) :
    sep ∉ c.word ∧ sep ∉ m.text ∧ sep ∉ cstr "ADVISORY" ∧ sep ∉ cstr "EOF" := by
  rcases hsep with rfl | rfl <;> cases c <;> cases m <;> decide

theorem notMem_devInoWord (id : DevIno) : sep ∉ devInoWord id := by
  obtain ⟨hhex, hdec, -, hcolon⟩ := blank_or_newline hsep
  simp [devInoWord, notMem_hexField hhex, notMem_fmtNat hdec, hcolon]

theorem notMem_lockEndWord (stop : Int64) : sep ∉ lockEndWord stop := by
  obtain ⟨-, hdec, hminus, -⟩ := blank_or_newline hsep
  rw [lockEndWord]
  split
  · exact (notMem_lockWords hsep .ofd .read).2.2.2
  · exact notMem_fmtInt hminus hdec _

theorem notMem_lockColumns (id : DevIno) (r : Lockrec) (n : ℕ) :
    ∀ c ∈ lockColumns id r n, sep ∉ c.1 := by
  obtain ⟨-, hdec, hminus, hcolon⟩ := blank_or_newline hsep
  obtain ⟨hclass, hmode, hadvisory, -⟩ := notMem_lockWords hsep r.lockClass r.lockMode
  simp [lockColumns, notMem_fmtNat hdec, notMem_fmtInt hminus hdec, notMem_devInoWord hsep, hcolon,
    hclass, hmode, hadvisory]

end Clean

theorem lockColumns_ne_nil (id : DevIno) (r : Lockrec) (n : ℕ) :
    ∀ c ∈ lockColumns id r n, c.1 ≠ [] := by
  have hclass : r.lockClass.word ≠ [] := by cases r.lockClass <;> decide
  have hmode : r.lockMode.text ≠ [] := by cases r.lockMode <;> decide
  have hadvisory : cstr "ADVISORY" ≠ [] := by decide
  simp [lockColumns, fmtInt_eq, decInt_ne_nil, devInoWord, hclass, hmode, hadvisory]

theorem lockEndWord_ne_nil (stop : Int64) : lockEndWord stop ≠ [] := by
  rw [lockEndWord]
  split
  · decide
  · rw [fmtInt_eq]
    exact decInt_ne_nil _

theorem words_lockBody (id : DevIno) (r : Lockrec) (n : ℕ) :
    words 32 (lockBody id r n) = (lockColumns id r n).map Prod.fst ++ [lockEndWord r.stop] := by
  rw [lockBody, words_columns fun c hc =>
    ⟨notMem_lockColumns (.inl rfl) id r n c hc, lockColumns_ne_nil id r n c hc⟩,
    words_singleton (notMem_lockEndWord (.inl rfl) _) (lockEndWord_ne_nil _)]

theorem notMem_lockBody (id : DevIno) (r : Lockrec) (n : ℕ) : 10 ∉ lockBody id r n := by
  rw [lockBody, List.mem_append, not_or]
  exact ⟨notMem_columns (by decide) (notMem_lockColumns (.inr rfl) id r n),
    notMem_lockEndWord (.inr rfl) _⟩

/-! ### Each word is read back -/

theorem readLockClass_word (c : LockClass) : readLockClass c.word = some c := by
  cases c <;> rfl

theorem readLockMode_text (m : LockMode) : readLockMode m.text = some m := by
  cases m <;> rfl

theorem readLockEnd_word (stop : Int64) :
    readLockEnd (lockEndWord stop) = some (if stop = -1 then none else some stop.toInt) := by
  by_cases hstop : stop = -1
  · rw [lockEndWord, if_pos hstop, if_pos hstop]
    rfl
  · have hnotEof : fmtInt stop.toInt ≠ cstr "EOF" := by
      intro heq
      have hread : readInt (cstr "EOF") = some stop.toInt := heq ▸ readInt_fmtInt stop.toInt
      have hnone : readInt (cstr "EOF") = none := rfl
      rw [hnone] at hread
      cases hread
    rw [lockEndWord, if_neg hstop, if_neg hstop, readLockEnd, if_neg hnotEof, readInt_fmtInt,
      Option.map_some]

theorem readDevIno_word (id : DevIno) :
    readDevIno (devInoWord id) = some (id.vmaj.toNat, id.vmin.toNat, id.ino.toNat) := by
  have hcolon : ∀ n, (58 : UInt8) ∉ hexField false 2 n := notMem_hexField rfl 2
  simp [readDevIno, devInoWord, cutFirst_append (hcolon _), readHex_hexField, readNat_fmtNat]

theorem readLockLine_body (l : ShownLock) (n : ℕ) :
    readLockLine (lockBody l.1 l.2 n) = some (lockEntry l n) := by
  have hnumber : cutFirst 58 (fmtNat n ++ [58]) = some (fmtNat n, []) :=
    cutFirst_append (notMem_fmtNat rfl n) []
  rw [readLockLine, words_lockBody]
  simp [lockColumns, hnumber, readDevIno_word, readNat_fmtNat, readLockClass_word,
    readLockMode_text, readInt_fmtInt, readLockEnd_word, lockEntry]

/-- The text that was printed for some locks is read back as these, numbered in their order. -/
theorem readLocks_lockLines (n : ℕ) (ls : List ShownLock) :
    readLocks (lockLines n ls) = some ((ls.zipIdx n).map fun (l, k) => lockEntry l k) := by
  rw [readLocks, lockLines]
  apply mapM_linesOf_flatMap fun x => lockBody x.1.1 x.1.2 x.2
  · intro x _
    exact lockLine_eq x.1.1 x.1.2 x.2
  · intro x _
    exact notMem_lockBody x.1.1 x.1.2 x.2
  · intro x _
    exact readLockLine_body x.1 x.2

/-! ## Whether all locks are there -/

def heldLocks (mounts : List (List LockedVnode)) : List ShownLock :=
  mounts.flatten.flatMap LockedVnode.locks

theorem shownLocks_eq_iff (mounts : List (List LockedVnode)) :
    shownLocks mounts = heldLocks mounts ↔
      (∀ vp ∈ mounts.flatten, vp.lockf.length ≤ locksPerVnode) ∧
        (heldLocks mounts).length ≤ locksMax := by
  have hcopied : shownLocks mounts =
      (mounts.flatten.flatMap fun vp => vp.locks.take locksPerVnode).take locksMax := by
    rw [shownLocks, List.flatMap_congr fun vp _ => vp.copied_eq]
  rw [hcopied, heldLocks, take_flatMap_take_eq_iff]
  simp only [LockedVnode.locks, List.length_map]

/-- What a program reads in `/proc/locks`: the first 128 locks of each file in the order of the
files, numbered from 1, as far as there are not more than 1024. It sees all locks that were found if
and only if no file has more than 128 and all files together have not more than 1024. -/
theorem locks_read_back (mounts : List (List LockedVnode)) :
    ((procfsDolocks true true mounts).toOption.bind readLocks =
        some (((shownLocks mounts).zipIdx 1).map fun (l, n) => lockEntry l n)) ∧
      (shownLocks mounts = heldLocks mounts ↔
        (∀ vp ∈ mounts.flatten, vp.lockf.length ≤ locksPerVnode) ∧
          (heldLocks mounts).length ≤ locksMax) := by
  constructor
  · show readLocks (procfsBuildLocks true mounts) = _
    rw [procfsBuildLocks_eq, readLocks_lockLines]
  · exact shownLocks_eq_iff mounts

end ProcFS.Data
