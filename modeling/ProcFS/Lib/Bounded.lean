import ProcFS.Lib.Bytes

/-!
# ProcFS.Lib.Bounded — reading memory that ends

Functions of C that read memory from a pointer on, over memory that has an end: a read behind the
end fails, and the whole function with it. For each function there is a condition on the memory
under which it does not fail, and what it returns then.

* `isSome_findString_iff`: when a search for a string ends within the memory.
* `findString_iff`: what it has found out.
* `eq_flatMap_of_gather`: a loop none of whose iterations failed.
-/

namespace ProcFS.Lib

/-! ## Fields -/

/-- A field of `w` bytes, if all of them are there. -/
def readAt (mem : List UInt8) (w off : ℕ) : Option ℕ :=
  if off + w ≤ mem.length then some (fieldAt w off mem) else none

theorem readAt_eq {mem : List UInt8} {w off : ℕ} (h : off + w ≤ mem.length) :
    readAt mem w off = some (fieldAt w off mem) := if_pos h

theorem eq_fieldAt_of_readAt {mem : List UInt8} {w off v : ℕ} (h : readAt mem w off = some v) :
    v = fieldAt w off mem := by
  rw [readAt] at h
  split_ifs at h
  exact (Option.some.inj h).symm

/-- Reading a field and going on with it. -/
theorem isSome_readAt_bind {α : Type*} {mem : List UInt8} {w off : ℕ} {f : ℕ → Option α} :
    ((readAt mem w off).bind f).isSome ↔
      off + w ≤ mem.length ∧ (f (fieldAt w off mem)).isSome := by
  rw [readAt]
  split_ifs with h
  · simp [h]
  · simp [h]

/-- A computation that reads a field first and has a result. -/
theorem readAt_bind_eq_some_iff {β : Type*} {mem : List UInt8} {w off : ℕ} {f : ℕ → Option β}
    {b : β} :
    (readAt mem w off).bind f = some b ↔ off + w ≤ mem.length ∧ f (fieldAt w off mem) = some b := by
  rw [readAt]
  split_ifs with hle
  · simp [hle]
  · simp [hle]

/-! ## Strings -/

/-- `strncmp(mem, s, strlen(s)) == 0`, which reads no further than to the first difference. -/
def startsWith : List UInt8 → List UInt8 → Option Bool
  | _, [] => some true
  | [], _ :: _ => none
  | b :: mem, c :: s => if b = c then startsWith mem s else some false

theorem startsWith_eq_true_iff {mem s : List UInt8} : startsWith mem s = some true ↔ s <+: mem := by
  fun_induction startsWith mem s with
  | case1 mem => simp
  | case2 c s => simp
  | case3 mem c s ih => rw [ih, List.cons_prefix_cons, and_iff_right rfl]
  | case4 b mem c s hne => simp [List.cons_prefix_cons, Ne.symm hne]

/-- A comparison fails if the memory ends before a difference. -/
theorem startsWith_eq_none_iff {mem s : List UInt8} :
    startsWith mem s = none ↔ mem <+: s ∧ mem ≠ s := by
  fun_induction startsWith mem s with
  | case1 mem => simp
  | case2 c s => simp
  | case3 mem c s ih => rw [ih, List.cons_prefix_cons, and_iff_right rfl, Ne, Ne, List.cons.injEq,
      and_iff_right rfl]
  | case4 b mem c s hne => simp [List.cons_prefix_cons, hne]

/-- `strstr(mem, s) != NULL`, which tries one position after the other. -/
def findString (s : List UInt8) : List UInt8 → Option Bool
  | [] => none
  | b :: mem =>
    (startsWith (b :: mem) s).bind fun found =>
      if found then some true else if b = 0 then some false else findString s mem

/-- A search is over at the string, or at a NUL. -/
theorem isSome_findString_iff {s : List UInt8} (hs : 0 ∉ s) (hne : s ≠ []) (mem : List UInt8) :
    (findString s mem).isSome ↔ 0 ∈ mem ∨ s <:+: mem := by
  induction mem with
  | nil => simp [findString, hne]
  | cons b mem ih =>
    rw [findString]
    cases hstart : startsWith (b :: mem) s with
    | none =>
      -- the memory is shorter than the string, and a beginning of it
      obtain ⟨hbegins, hneq⟩ := startsWith_eq_none_iff.mp hstart
      have hzero : 0 ∉ b :: mem := fun h => hs (hbegins.subset h)
      have hinside : ¬ s <:+: b :: mem := fun h =>
        hneq (hbegins.eq_of_length_le h.length_le)
      simp [hzero, hinside]
    | some found =>
      cases found with
      | true =>
        have hinside := (startsWith_eq_true_iff.mp hstart).isInfix
        simp [hinside]
      | false =>
        have hbegins : ¬ s <+: b :: mem := by
          rw [← startsWith_eq_true_iff, hstart]
          simp
        rw [Option.bind_some, if_neg (by decide), List.infix_cons_iff, or_iff_right hbegins,
          List.mem_cons]
        split_ifs with hb
        · simp [hb]
        · rw [ih, or_iff_right (Ne.symm hb)]

/-- A search that ends without the string has met a NUL. -/
theorem zero_mem_of_findString {s mem : List UInt8} (h : findString s mem = some false) :
    0 ∈ mem := by
  induction mem with
  | nil => cases h
  | cons b mem ih =>
    rw [findString, Option.bind_eq_some_iff] at h
    obtain ⟨found, -, h⟩ := h
    split_ifs at h with hfound hb
    · cases h
    · rw [hb]
      exact List.mem_cons_self
    · exact List.mem_cons_of_mem b (ih h)

/-- What a search that ends has found out about the string in the memory. -/
theorem findString_iff {s mem : List UInt8} {found : Bool} (hs : 0 ∉ s) (hne : s ≠ [])
    (h : findString s mem = some found) : found = true ↔ s <:+: untilNul mem := by
  induction mem with
  | nil => cases h
  | cons b mem ih =>
    rw [findString, Option.bind_eq_some_iff] at h
    obtain ⟨here, hstart, h⟩ := h
    have hhere : here = true ↔ s <+: untilNul (b :: mem) := by
      rw [prefix_untilNul_iff hs, ← startsWith_eq_true_iff, hstart, Option.some.injEq]
    split_ifs at h with htrue hb
    · obtain rfl := Option.some.inj h
      exact iff_of_true rfl (hhere.mp htrue).isInfix
    · obtain rfl := Option.some.inj h
      have hnil : untilNul (b :: mem) = [] := by simp [untilNul, hb]
      rw [hnil, List.infix_nil]
      exact iff_of_false Bool.false_ne_true hne
    · have hcons : untilNul (b :: mem) = b :: untilNul mem := by simp [untilNul, hb]
      rw [hcons] at hhere
      rw [hcons, List.infix_cons_iff, or_iff_right fun hin => htrue (hhere.mpr hin), ih h]

/-- What `%s` prints, or `strlcpy` goes over: the characters before the NUL. -/
def stringIn : List UInt8 → Option (List UInt8)
  | [] => none
  | b :: mem => if b = 0 then some [] else (stringIn mem).map (b :: ·)

theorem isSome_stringIn_iff {mem : List UInt8} : (stringIn mem).isSome ↔ 0 ∈ mem := by
  induction mem with
  | nil => simp [stringIn]
  | cons b mem ih =>
    rw [stringIn, List.mem_cons]
    split_ifs with hb
    · simp [hb]
    · rw [Option.isSome_map, ih, or_iff_right (Ne.symm hb)]

theorem eq_untilNul_of_stringIn {mem s : List UInt8} (h : stringIn mem = some s) :
    s = untilNul mem := by
  induction mem generalizing s with
  | nil => cases h
  | cons b mem ih =>
    rw [stringIn] at h
    split_ifs at h with hb
    · obtain rfl := Option.some.inj h
      simp [untilNul, hb]
    · obtain ⟨rest, hrest, rfl⟩ := Option.map_eq_some_iff.mp h
      rw [ih hrest]
      simp [untilNul, hb]

/-! ## Loops -/

/-- The results of all iterations, one behind the other. -/
def gather {α β : Type*} (f : α → Option (List β)) : List α → Option (List β)
  | [] => some []
  | x :: xs => (f x).bind fun a => (gather f xs).map (a ++ ·)

theorem isSome_gather_iff {α β : Type*} {f : α → Option (List β)} {xs : List α} :
    (gather f xs).isSome ↔ ∀ x ∈ xs, (f x).isSome := by
  induction xs with
  | nil => simp [gather]
  | cons x xs ih =>
    rw [gather, List.forall_mem_cons, ← ih]
    cases f x with
    | none => simp
    | some a => simp

/-- When no iteration fails, the results are what each of them says. -/
theorem eq_flatMap_of_gather {α β : Type*} {f : α → Option (List β)} {g : α → List β} {xs : List α}
    {out : List β} (hf : ∀ x ∈ xs, ∀ a, f x = some a → a = g x) (h : gather f xs = some out) :
    out = xs.flatMap g := by
  induction xs generalizing out with
  | nil => exact (Option.some.inj h).symm
  | cons x xs ih =>
    rw [List.forall_mem_cons] at hf
    rw [gather] at h
    obtain ⟨a, ha, h⟩ := Option.bind_eq_some_iff.mp h
    obtain ⟨rest, hrest, rfl⟩ := Option.map_eq_some_iff.mp h
    rw [List.flatMap_cons, hf.1 a ha, ih hf.2 hrest]

end ProcFS.Lib
