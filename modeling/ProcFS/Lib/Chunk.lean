import Mathlib.Data.List.Basic

/-!
# ProcFS.Lib.Chunk — reading a sequence in pieces

A reader fetches a sequence piece by piece: each request names an offset and a
length, each answer is the part of the sequence found there, and the next
request resumes where the answer ended. `Reader.Synced` is the invariant that
ties the offset to what was delivered.

* `Reader.Synced.read`: a piece keeps the reader in step.
* `Reader.Synced.got_eq_of_short`: a piece that is too short is the last one.
-/

namespace ProcFS.Lib

variable {α : Type*}

/-- The at most `n` elements of `xs` from position `off` on. -/
def chunk (xs : List α) (off n : ℕ) : List α := (xs.drop off).take n

@[simp] theorem length_chunk (xs : List α) (off n : ℕ) :
    (chunk xs off n).length = min n (xs.length - off) := by
  simp [chunk]

/-- A chunk continues the prefix that ends at its offset. -/
theorem take_append_chunk (xs : List α) (off n : ℕ) :
    xs.take off ++ chunk xs off n = xs.take (off + (chunk xs off n).length) := by
  have hlen : (chunk xs off n).length = min n (xs.length - off) := length_chunk xs off n
  have hchunk : chunk xs off n = (xs.drop off).take (chunk xs off n).length := by
    rw [hlen, chunk, ← List.length_drop, List.take_eq_take_min]
  rw [List.take_add, ← hchunk]

/-- Before the end of the sequence a positive request is answered with at
least one element. -/
theorem chunk_ne_nil {xs : List α} {off n : ℕ} (hoff : off < xs.length) (hn : 0 < n) :
    chunk xs off n ≠ [] := by
  intro h
  have hlen := length_chunk xs off n
  rw [h, List.length_nil] at hlen
  omega

@[simp] theorem chunk_length_self (xs : List α) (n : ℕ) : chunk xs xs.length n = [] := by
  simp [chunk]

/-- The state of a reader: its offset, and what it was given so far. -/
structure Reader (α : Type*) where
  off : ℕ
  got : List α

/-- One request of length `n` to a source that holds `xs`. -/
def Reader.read (xs : List α) (r : Reader α) (n : ℕ) : Reader α where
  off := r.off + (chunk xs r.off n).length
  got := r.got ++ chunk xs r.off n

/-- The reader holds exactly the part of `xs` before its offset. -/
structure Reader.Synced (xs : List α) (r : Reader α) : Prop where
  off_le : r.off ≤ xs.length
  got_eq : r.got = xs.take r.off

theorem Reader.synced_init (xs : List α) : Reader.Synced xs ⟨0, []⟩ :=
  ⟨Nat.zero_le _, by simp⟩

theorem Reader.Synced.read {xs : List α} {r : Reader α} (h : r.Synced xs) (n : ℕ) :
    (r.read xs n).Synced xs := by
  constructor
  · show r.off + (chunk xs r.off n).length ≤ xs.length
    have hlen := length_chunk xs r.off n
    have hoff := h.off_le
    omega
  · show r.got ++ chunk xs r.off n = xs.take (r.off + (chunk xs r.off n).length)
    rw [h.got_eq, take_append_chunk]

/-- What a synced reader holds is a prefix of the sequence. -/
theorem Reader.Synced.got_prefix {xs : List α} {r : Reader α} (h : r.Synced xs) :
    r.got <+: xs := by
  rw [h.got_eq]
  exact List.take_prefix _ _

/-- A synced reader holds the whole sequence exactly when its offset is at the end. -/
theorem Reader.Synced.got_eq_iff {xs : List α} {r : Reader α} (h : r.Synced xs) :
    r.got = xs ↔ r.off = xs.length := by
  constructor
  · intro hall
    have hlen := congrArg List.length h.got_eq
    rw [hall, List.length_take] at hlen
    have hoff := h.off_le
    omega
  · intro hend
    rw [h.got_eq, hend, List.take_length]

/-- A reader that gets less than it asked for has the whole sequence. -/
theorem Reader.Synced.got_eq_of_short {xs : List α} {r : Reader α} (h : r.Synced xs) {n : ℕ}
    (hshort : (chunk xs r.off n).length < n) : (r.read xs n).got = xs := by
  apply (h.read n).got_eq_iff.mpr
  show r.off + (chunk xs r.off n).length = xs.length
  rw [length_chunk] at hshort ⊢
  have hoff := h.off_le
  omega

end ProcFS.Lib
