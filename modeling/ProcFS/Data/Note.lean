import Mathlib.Data.List.DropRight
import ProcFS.Data.Memory
import ProcFS.Lib.Bytes

/-!
# ProcFS.Data.Note — notes that become signals

A write to `/proc/<pid>/note` is a note: the name of a signal or its number, with any
newlines at its end. The bytes are copied into a buffer and handed on as a C string, so what
is behind a NUL byte is not looked at. `/proc/<pid>/clear_refs` reads its argument in the
same way but also looks at the length.

* `donote_eq`: the note that is looked at.
* `procfsNoteToSignal_eq_some_iff`: which notes are recognised.
* `donote_answers_iff`: which writes are answered as they should be.
-/

namespace ProcFS.Data

open Lib (untilNul)
open Transfer (einval)

/-! ## Reading the note -/

def procfsNotelen : ℕ := 64

def emsgsize : Int32 := 40

/-- The loop of `procfs_getuserstr` that replaces newlines at the end by NULs; `xlen` bytes
of the buffer are left. -/
def stripNewlines (buf : List UInt8) : ℕ → List UInt8 × ℕ
  | 0 => (buf, 0)
  | xlen + 1 =>
    if buf[xlen]? = some 10 then stripNewlines (buf.set xlen 0) xlen else (buf, xlen + 1)

/-- `procfs_getuserstr` for the bytes that were written: the buffer up to its NUL, and the
length of the note. -/
def procfsGetuserstr (written : List UInt8) (buflen : ℕ) : Except Int32 (List UInt8 × ℕ) :=
  let xlen := written.length
  if buflen < xlen then .error emsgsize
  else .ok (stripNewlines (written ++ [0]) xlen)

/-! ## Signals -/

def nsig : ℕ := 32

def noteTable : List (CString × ℕ) :=
  [(cstr "hup", 1), (cstr "hangup", 1), (cstr "int", 2), (cstr "interrupt", 2), (cstr "quit", 3),
   (cstr "kill", 9), (cstr "term", 15), (cstr "terminate", 15), (cstr "stop", 17),
   (cstr "cont", 19), (cstr "usr1", 30), (cstr "usr2", 31)]

/-- The loop over the digits; `none` is the result -1. -/
def signalLoop : ℕ → CString → Option ℕ
  | sig, [] => if 1 ≤ sig then some sig else none
  | sig, c :: rest =>
    if !isDigit c then none
    else
      let sig := sig * 10 + (c.toNat - 48)
      if nsig ≤ sig then none else signalLoop sig rest

/-- `procfs_note_to_signal`; `none` is the result -1. -/
def procfsNoteToSignal (note : CString) : Option ℕ :=
  if note.head?.any isDigit then signalLoop 0 note
  else (noteTable.find? fun entry => entry.1 == note).map (·.2)

/-- The error code of a write, and the signal that was posted. -/
structure NoteReply where
  error : Int32
  posted : Option ℕ
deriving DecidableEq, Repr

def procfsDonote (rw : UioRw) (written : List UInt8) : NoteReply :=
  if rw ≠ .UIO_WRITE then ⟨einval, none⟩
  else
    match procfsGetuserstr written procfsNotelen with
    | .error e => ⟨e, none⟩
    | .ok (note, _) =>
      match procfsNoteToSignal (untilNul note) with
      | none => ⟨einval, none⟩
      | some sig => ⟨0, some sig⟩

/-- `procfs_doclear_refs`, which has no effect. -/
def procfsDoclearRefs (rw : UioRw) (written : List UInt8) : Int32 :=
  if rw ≠ .UIO_WRITE then einval
  else
    match procfsGetuserstr written procfsNotelen with
    | .error e => e
    | .ok (note, xlen) =>
      if xlen ≠ 1 || note.head?.any (fun c => c < 49 || 52 < c) then einval else 0

/-! ## What a note should be -/

/-- The bytes are in full a name of the table or a number in the range of signals. -/
def NamesSignal (s : CString) (sig : ℕ) : Prop :=
  (s, sig) ∈ noteTable ∨
    s ≠ [] ∧ (∀ c ∈ s, isDigit c = true) ∧ decimalValue s = sig ∧ 1 ≤ sig ∧ sig < nsig

/-- The bytes that were written, without the newlines at the end. -/
def trimmed (written : List UInt8) : List UInt8 := written.rdropWhile fun c => c == 10

/-! ## What the functions compute -/

theorem trimmed_concat (written : List UInt8) (c : UInt8) :
    trimmed (written ++ [c]) = if c = 10 then trimmed written else written ++ [c] := by
  simp only [trimmed, List.rdropWhile_concat, beq_iff_eq]

/-- The newlines at the end are NULs afterwards. -/
theorem stripNewlines_eq (written rest : List UInt8) :
    ∃ k, stripNewlines (written ++ rest) written.length =
      (trimmed written ++ List.replicate k 0 ++ rest, (trimmed written).length) := by
  induction written using List.reverseRecOn generalizing rest with
  | nil => exact ⟨0, rfl⟩
  | append_singleton written c ih =>
    have hlast : (written ++ [c] ++ rest)[written.length]? = some c := by
      rw [List.append_assoc, List.getElem?_append_right (Nat.le_refl _), Nat.sub_self]
      rfl
    rw [List.length_append, List.length_singleton, stripNewlines, hlast, trimmed_concat]
    by_cases hc : c = 10
    · -- one newline less, and one NUL more
      obtain ⟨k, hk⟩ := ih (0 :: rest)
      have hset : (written ++ [c] ++ rest).set written.length 0 = written ++ 0 :: rest := by
        rw [List.append_assoc, List.set_append_right _ _ (Nat.le_refl _), Nat.sub_self]
        rfl
      rw [if_pos (congrArg some hc), if_pos hc, hset, hk]
      refine ⟨k + 1, ?_⟩
      rw [List.replicate_succ', ← List.append_assoc, List.append_assoc _ [0] rest]
      rfl
    · rw [if_neg (fun h => hc (Option.some.inj h)), if_neg hc]
      exact ⟨0, by simp⟩

/-- The note that is looked at: what was written, up to the newlines at the end or a NUL. -/
theorem donote_eq (written : List UInt8) (h : written.length ≤ procfsNotelen) :
    procfsDonote .UIO_WRITE written =
      match procfsNoteToSignal (untilNul (trimmed written)) with
      | none => ⟨einval, none⟩
      | some sig => ⟨0, some sig⟩ := by
  obtain ⟨k, hk⟩ := stripNewlines_eq written [0]
  have hnote : untilNul (trimmed written ++ List.replicate k 0 ++ [0]) =
      untilNul (trimmed written) := by
    rw [List.append_assoc, ← List.replicate_succ', List.replicate_succ, Lib.untilNul_append_zero]
  simp only [procfsDonote, procfsGetuserstr, hk, if_neg (Nat.not_lt.mpr h), hnote, ne_eq,
    not_true_eq_false, if_false]

/-! ## Numbers and names -/

theorem decimalValue_concat (pre : CString) (c : UInt8) :
    decimalValue (pre ++ [c]) = decimalValue pre * 10 + (c.toNat - 48) := by
  rw [decimalValue, List.foldl_concat, Nat.mul_comm]
  rfl

theorem decimalValue_le_append (pre s : CString) : decimalValue pre ≤ decimalValue (pre ++ s) := by
  induction s generalizing pre with
  | nil => rw [List.append_nil]
  | cons c s ih =>
    have hle := ih (pre ++ [c])
    rw [decimalValue_concat, ← List.append_cons] at hle
    omega

/-- The loop behind the digits `pre`. A number that is too large stays so, so the early exit changes
nothing. -/
theorem signalLoop_eq_some_iff {sig : ℕ} (pre : CString) {s : CString}
    (hpre : decimalValue pre < nsig) :
    signalLoop (decimalValue pre) s = some sig ↔
      (∀ c ∈ s, isDigit c = true) ∧ decimalValue (pre ++ s) = sig ∧ 1 ≤ sig ∧ sig < nsig := by
  induction s generalizing pre with
  | nil =>
    rw [signalLoop, List.append_nil, Option.ite_none_right_eq_some]
    constructor
    · rintro ⟨hpos, heq⟩
      cases heq
      exact ⟨fun c hc => absurd hc List.not_mem_nil, rfl, hpos, hpre⟩
    · rintro ⟨-, rfl, hpos, -⟩
      exact ⟨hpos, rfl⟩
  | cons c s ih =>
    rw [signalLoop, List.forall_mem_cons]
    cases hdigit : isDigit c with
    | false => simp
    | true =>
      rw [List.append_cons]
      simp only [Bool.not_true, Bool.false_eq_true, if_false, true_and, ← decimalValue_concat]
      by_cases hlarge : nsig ≤ decimalValue (pre ++ [c])
      · rw [if_pos hlarge]
        refine iff_of_false (by simp) ?_
        rintro ⟨-, rfl, -, hlt⟩
        have hle := decimalValue_le_append (pre ++ [c]) s
        omega
      · rw [if_neg hlarge]
        exact ih (pre ++ [c]) (by omega)

/-- The table has no name twice. -/
theorem find?_noteTable_iff {note : CString} {sig : ℕ} :
    (noteTable.find? fun entry => entry.1 == note).map (·.2) = some sig ↔
      (note, sig) ∈ noteTable := by
  constructor
  · intro h
    obtain ⟨entry, hfind, rfl⟩ := Option.map_eq_some_iff.mp h
    have hname : entry.1 = note := by simpa using List.find?_some hfind
    rw [← hname]
    exact List.mem_of_find?_eq_some hfind
  · have hall : ∀ entry ∈ noteTable,
        (noteTable.find? fun e => e.1 == entry.1).map (·.2) = some entry.2 := by decide
    exact fun h => hall (note, sig) h

/-- No name begins with a digit or has a NUL in it. -/
theorem noteTable_names : ∀ entry ∈ noteTable,
    entry.1.head?.any isDigit = false ∧ 0 ∉ entry.1 := by decide

/-- The function recognises a note in full. -/
theorem procfsNoteToSignal_eq_some_iff {note : CString} {sig : ℕ} :
    procfsNoteToSignal note = some sig ↔ NamesSignal note sig := by
  unfold procfsNoteToSignal NamesSignal
  split
  · rename_i hdigit
    have hne : note ≠ [] := by
      rintro rfl
      cases hdigit
    have hname : (note, sig) ∉ noteTable := by
      intro hmem
      rw [(noteTable_names _ hmem).1] at hdigit
      cases hdigit
    have hloop : signalLoop 0 note = some sig ↔ _ := signalLoop_eq_some_iff [] (by decide)
    rw [hloop, List.nil_append]
    constructor
    · intro h
      exact Or.inr ⟨hne, h⟩
    · rintro (hmem | ⟨-, h⟩)
      · exact absurd hmem hname
      · exact h
  · rename_i hdigit
    rw [find?_noteTable_iff]
    constructor
    · exact Or.inl
    · rintro (hmem | ⟨hne, hall, -⟩)
      · exact hmem
      · -- a number begins with a digit
        obtain ⟨c, rest, rfl⟩ := List.exists_cons_of_ne_nil hne
        exact absurd (hall c List.mem_cons_self) hdigit

/-- What names a signal has no NUL in it. -/
theorem NamesSignal.zero_notMem {s : CString} {sig : ℕ} (h : NamesSignal s sig) : 0 ∉ s := by
  rcases h with hmem | ⟨-, hall, -⟩
  · exact (noteTable_names _ hmem).2
  · intro hzero
    exact absurd (hall 0 hzero) (by decide)

/-! ## Which writes are answered as they should be -/

/-- The answer to a write. A signal is posted if and only if the bytes are at most 64 and,
without the newlines at the end, name it in full; otherwise there is an error. -/
structure AnswersNote (written : List UInt8) (r : NoteReply) : Prop where
  posted_iff : ∀ sig, r.posted = some sig ↔
    written.length ≤ procfsNotelen ∧ NamesSignal (trimmed written) sig
  error_iff : r.error = 0 ↔ r.posted ≠ none

/-- A write is answered as it should be if and only if it is too long, or has no NUL
before the newlines at its end, or what is before the NUL does not name a signal. -/
theorem donote_answers_iff (written : List UInt8) :
    AnswersNote written (procfsDonote .UIO_WRITE written) ↔
      procfsNotelen < written.length ∨ 0 ∉ trimmed written ∨
        ∀ sig, ¬ NamesSignal (untilNul (trimmed written)) sig := by
  by_cases hlen : written.length ≤ procfsNotelen
  · rw [donote_eq written hlen]
    have hself : 0 ∉ trimmed written → untilNul (trimmed written) = trimmed written :=
      Lib.untilNul_of_notMem
    cases hsig : procfsNoteToSignal (untilNul (trimmed written)) with
    | none =>
      have hnot : ∀ sig, ¬ NamesSignal (untilNul (trimmed written)) sig := by
        intro sig hnames
        rw [← procfsNoteToSignal_eq_some_iff, hsig] at hnames
        cases hnames
      refine iff_of_true ⟨fun sig => iff_of_false (by simp) ?_, by simp; decide⟩
        (Or.inr (Or.inr hnot))
      rintro ⟨-, hnames⟩
      rw [← hself hnames.zero_notMem] at hnames
      exact hnot sig hnames
    | some sig =>
      have hnames := procfsNoteToSignal_eq_some_iff.mp hsig
      constructor
      · -- the signal that was posted is named in full
        intro h
        exact Or.inr (Or.inl ((h.posted_iff sig).mp rfl).2.zero_notMem)
      · rintro (hlong | hzero | hnot)
        · exact absurd hlen (Nat.not_le.mpr hlong)
        · refine ⟨fun sig' => ?_, by simp⟩
          rw [and_iff_right hlen, ← hself hzero, ← procfsNoteToSignal_eq_some_iff, hsig]
        · exact absurd hnames (hnot sig)
  · have hreply : procfsDonote .UIO_WRITE written = ⟨emsgsize, none⟩ := by
      simp only [procfsDonote, procfsGetuserstr, if_pos (Nat.lt_of_not_le hlen), ne_eq,
        not_true_eq_false, if_false]
    rw [hreply]
    refine iff_of_true ⟨fun sig => ?_, by simp; decide⟩ (Or.inl (Nat.lt_of_not_le hlen))
    exact iff_of_false (by simp) (fun h => hlen h.1)

/-- The bytes `kill`, a NUL and one more: the process is killed, although they are no note. -/
theorem donote_nul_kills :
    procfsDonote .UIO_WRITE (cstr "kill" ++ [0, 120]) = ⟨0, some 9⟩ ∧
      ¬ AnswersNote (cstr "kill" ++ [0, 120])
        (procfsDonote .UIO_WRITE (cstr "kill" ++ [0, 120])) := by
  have hreply : procfsDonote .UIO_WRITE (cstr "kill" ++ [0, 120]) = ⟨0, some 9⟩ := by decide
  refine ⟨hreply, fun h => ?_⟩
  rw [hreply] at h
  have hzero := ((h.posted_iff 9).mp rfl).2.zero_notMem
  exact hzero (by decide)

/-- The other node looks at the length. -/
example : procfsDoclearRefs .UIO_WRITE [49, 0, 120] = einval := by decide

end ProcFS.Data
