import Mathlib.Data.List.Chain
import Mathlib.Data.List.TakeWhile

/-!
# ProcFS.Lib.Pieces — whether a source delivers a text

A source is called again and again, each time with a size, and keeps a state between the
calls. It delivers a text if the pieces it returns make up the text and it then returns
nothing more. A source that always starts at the beginning again, and only shortens what
it returns, can hardly do so in more than one piece: the last piece would be both a
beginning of a record and the end of the text. `Unbordered` says that there is no such
thing but the last record itself, which holds for lines and for stanzas of lines.

* `delivers_of_first`: a source that returns everything at once.
* `CutsFrom.delivers_iff`: when a source delivers that always starts at the beginning.
* `unbordered_stanzas`: numbered stanzas are not ends of each other.
-/

namespace ProcFS.Lib

/-! ## Calls -/

section Calls

variable {σ α : Type*} (call : σ → ℕ → List α × σ) (s : σ) (sizes : ℕ → ℕ)

/-- The state before a call. -/
def stateAt : ℕ → σ
  | 0 => s
  | k + 1 => (call (stateAt k) (sizes k)).2

/-- What a call returns. -/
def pieceAt (k : ℕ) : List α := (call (stateAt call s sizes k) (sizes k)).1

/-- What the first calls returned. -/
def received (k : ℕ) : List α := (List.range k).flatMap (pieceAt call s sizes)

/-- The pieces make up the text, and then there is nothing more. -/
def Delivers (text : List α) : Prop :=
  ∃ k, received call s sizes k = text ∧ ∀ j, k ≤ j → pieceAt call s sizes j = []

variable {call s sizes}

theorem received_succ (k : ℕ) :
    received call s sizes (k + 1) = received call s sizes k ++ pieceAt call s sizes k := by
  rw [received, received, List.range_succ, List.flatMap_append, List.flatMap_singleton]

theorem length_received_mono {j k : ℕ} (h : j ≤ k) :
    (received call s sizes j).length ≤ (received call s sizes k).length := by
  induction h with
  | refl => exact Nat.le_refl _
  | step h ih =>
    rw [received_succ, List.length_append]
    omega

/-- Once the text was received, the calls return nothing. -/
theorem Delivers.pieceAt_eq_nil {text : List α} (h : Delivers call s sizes text) {m : ℕ}
    (hm : received call s sizes m = text) {j : ℕ} (hj : m ≤ j) : pieceAt call s sizes j = [] := by
  obtain ⟨k, hk, hrest⟩ := h
  rcases Nat.lt_or_ge j k with hlt | hge
  · have hfrom := @length_received_mono _ _ call s sizes _ _ hj
    have hto := @length_received_mono _ _ call s sizes _ _ hlt
    rw [received_succ, List.length_append, hk] at hto
    rw [hm] at hfrom
    exact List.eq_nil_of_length_eq_zero (by omega)
  · exact hrest j hge

/-- If the first call does not return the whole text, there is a later one that completes
it. -/
theorem Delivers.exists_last {text : List α} (h : Delivers call s sizes text)
    (hfirst : pieceAt call s sizes 0 ≠ text) :
    ∃ i, 0 < i ∧ pieceAt call s sizes i ≠ [] ∧ received call s sizes (i + 1) = text := by
  obtain ⟨k, hk, hrest⟩ := h
  induction k with
  | zero =>
    rw [hrest 0 (Nat.le_refl 0)] at hfirst
    exact absurd hk hfirst
  | succ k ih =>
    by_cases hpiece : pieceAt call s sizes k = []
    · -- the last of these calls returned nothing
      rw [received_succ, hpiece, List.append_nil] at hk
      refine ih hk fun j hj => ?_
      rcases Nat.eq_or_lt_of_le hj with rfl | hlt
      · exact hpiece
      · exact hrest j hlt
    · refine ⟨k, Nat.pos_of_ne_zero ?_, hpiece, hk⟩
      rintro rfl
      rw [received_succ] at hk
      exact hfirst hk

/-- A first call with the whole text, and then nothing. -/
theorem delivers_of_first {text : List α} (hfirst : pieceAt call s sizes 0 = text)
    (hrest : ∀ j, received call s sizes j = text → 0 < j → pieceAt call s sizes j = []) :
    Delivers call s sizes text := by
  have hall : ∀ j, received call s sizes (j + 1) = text := by
    intro j
    induction j with
    | zero => rw [received_succ, hfirst]; rfl
    | succ j ih => rw [received_succ, ih, hrest (j + 1) ih (Nat.succ_pos j), List.append_nil]
  refine ⟨1, hall 0, fun j hj => ?_⟩
  obtain ⟨i, rfl⟩ := Nat.exists_eq_add_of_le' hj
  exact hrest (i + 1) (hall i) (Nat.succ_pos i)

/-- A source whose state is the number of elements it has returned. -/
theorem pieceAt_of_offset {enc : ℕ → σ} {serve : ℕ → ℕ → List α}
    (h : ∀ off n, call (enc off) n = (serve off n, enc (off + (serve off n).length))) (k : ℕ) :
    pieceAt call (enc 0) sizes k = serve (received call (enc 0) sizes k).length (sizes k) := by
  have hstate : ∀ k, stateAt call (enc 0) sizes k = enc (received call (enc 0) sizes k).length := by
    intro k
    induction k with
    | zero => rfl
    | succ k ih =>
      rw [stateAt, ih, h, received_succ, List.length_append, pieceAt, ih, h]
  rw [pieceAt, hstate, h]

end Calls

/-! ## Records that are cut -/

section Records

variable {α β : Type*}

/-- The beginning of a sequence of parts ends within one of the parts. -/
theorem take_flatMap_ne_nil {f : β → List α} {xs : List β} {n : ℕ}
    (h : (xs.flatMap f).take n ≠ []) :
    ∃ pre x post m, xs = pre ++ x :: post ∧ 0 < m ∧ m ≤ (f x).length ∧
      (xs.flatMap f).take n = pre.flatMap f ++ (f x).take m := by
  induction xs generalizing n with
  | nil => exact absurd List.take_nil h
  | cons x xs ih =>
    rw [List.flatMap_cons] at h ⊢
    rcases Nat.le_total n (f x).length with hle | hle
    · have hn : 0 < n := Nat.pos_of_ne_zero fun h0 => h (by rw [h0, List.take_zero])
      exact ⟨[], x, xs, n, rfl, hn, hle, by rw [List.take_append_of_le_length hle]; rfl⟩
    · have hsplit : (f x ++ xs.flatMap f).take n =
          f x ++ (xs.flatMap f).take (n - (f x).length) := by
        rw [List.take_append, List.take_of_length_le hle]
      rw [hsplit] at h ⊢
      by_cases hrest : (xs.flatMap f).take (n - (f x).length) = []
      · rw [hrest, List.append_nil] at h ⊢
        exact ⟨[], x, xs, (f x).length, rfl, List.length_pos_iff.mpr h, Nat.le_refl _,
          by rw [List.take_length]; rfl⟩
      · obtain ⟨pre, y, post, m, rfl, hpos, hle', heq⟩ := ih hrest
        exact ⟨x :: pre, y, post, m, rfl, hpos, hle', by
          rw [heq, List.flatMap_cons, List.append_assoc]⟩

/-- The records, each without its last `d` elements. -/
def cutAll (d : ℕ) (recs : List (List α)) : List α := recs.flatMap fun r => r.take (r.length - d)

theorem cutAll_zero (recs : List (List α)) : cutAll 0 recs = recs.flatten := by
  simp [cutAll, List.flatMap_id']

theorem cutAll_eq_nil_iff {d : ℕ} {recs : List (List α)} :
    cutAll d recs = [] ↔ ∀ r ∈ recs, r.length ≤ d := by
  rw [cutAll, List.flatMap_eq_nil_iff]
  refine forall₂_congr fun r _ => ?_
  rw [List.take_eq_nil_iff]
  constructor
  · rintro (h | rfl)
    · omega
    · exact Nat.zero_le d
  · intro h
    exact Or.inl (by omega)

/-- No beginning of a record is an end of the whole, except the last record. -/
def Unbordered (recs : List (List α)) : Prop :=
  ∀ pre r post m, recs = pre ++ r :: post → 0 < m → m ≤ r.length →
    r.take m <:+ recs.flatten → post = [] ∧ m = r.length

/-- What begins with the cut records and ends the whole is the whole. -/
theorem Unbordered.eq_flatten {recs : List (List α)} (h : Unbordered recs) {d n : ℕ}
    (hne : (cutAll d recs).take n ≠ []) (hend : (cutAll d recs).take n <:+ recs.flatten) :
    (cutAll d recs).take n = recs.flatten := by
  obtain ⟨pre, r, post, m, hrecs, hpos, hle, heq⟩ := take_flatMap_ne_nil hne
  rw [List.length_take] at hle
  rw [List.take_take, Nat.min_eq_left (by omega)] at heq
  have hsuffix : r.take m <:+ recs.flatten := by
    refine List.IsSuffix.trans ?_ hend
    rw [cutAll, heq]
    exact List.suffix_append _ _
  obtain ⟨rfl, hm⟩ := h pre r post m hrecs hpos (by omega) hsuffix
  -- the last record is there as a whole, so nothing was cut
  have hd : d = 0 := by omega
  subst hd
  rw [cutAll, heq, hm, List.take_length, hrecs]
  simp [List.flatMap_id']

section Cut

variable {σ : Type*} {call : σ → ℕ → List β × σ} {enc : ℕ → σ} {sizes : ℕ → ℕ} {f : α → β} {p : ℕ}
  {recs : List (List α)}

/-- A call at offset `off` cuts as much of each record as `off` lies behind the beginning of
its page, and returns the beginning of what is left. -/
def CutsFrom (call : σ → ℕ → List β × σ) (enc : ℕ → σ) (f : α → β) (p : ℕ)
    (recs : List (List α)) : Prop :=
  ∀ off n, call (enc off) n =
    (((cutAll (off % p) recs).take n).map f,
      enc (off + (((cutAll (off % p) recs).take n).map f).length))

theorem CutsFrom.pieceAt_eq (h : CutsFrom call enc f p recs) (sizes : ℕ → ℕ) (k : ℕ) :
    pieceAt call (enc 0) sizes k =
      ((cutAll ((received call (enc 0) sizes k).length % p) recs).take (sizes k)).map f :=
  pieceAt_of_offset h k

theorem CutsFrom.pieceAt_zero (h : CutsFrom call enc f p recs) (sizes : ℕ → ℕ) :
    pieceAt call (enc 0) sizes 0 = (recs.flatten.take (sizes 0)).map f := by
  rw [h.pieceAt_eq]
  show ((cutAll (0 % p) recs).take (sizes 0)).map f = _
  rw [Nat.zero_mod, cutAll_zero]

/-- If the first call is not given all of it, the rest does not come. -/
theorem CutsFrom.le_of_delivers (h : CutsFrom call enc f p recs) (hf : Function.Injective f)
    (hrecs : Unbordered recs) (hsize : 0 < sizes 0)
    (hdelivers : Delivers call (enc 0) sizes (recs.flatten.map f)) :
    recs.flatten.length ≤ sizes 0 := by
  by_contra hlt
  have hfirst := congrArg List.length (h.pieceAt_zero sizes)
  rw [List.length_map, List.length_take] at hfirst
  obtain ⟨i, hi, hne, hlast⟩ := hdelivers.exists_last fun heq => by
    rw [heq, List.length_map] at hfirst
    omega
  rw [received_succ] at hlast
  -- the last piece ends the whole, so it is the whole
  have hpiece := h.pieceAt_eq sizes i
  have hend : ((cutAll ((received call (enc 0) sizes i).length % p) recs).take (sizes i)).map f <:+
      recs.flatten.map f := by
    rw [← hpiece, ← hlast]
    exact List.suffix_append _ _
  have hwhole := hrecs.eq_flatten
    (fun hnil => hne (by rw [hpiece, hnil, List.map_nil]))
    ((List.suffix_map_iff_of_injective hf).mp hend)
  rw [hwhole] at hpiece
  -- but something was returned before it
  have hlength := congrArg List.length hlast
  rw [hpiece, List.length_append] at hlength
  have hbefore := @length_received_mono _ _ call (enc 0) sizes 1 i hi
  rw [received_succ, List.length_append, hfirst] at hbefore
  omega

/-- Such a source delivers the records if and only if the first call is given all of them
and an offset at their end cuts all of them. -/
theorem CutsFrom.delivers_iff (h : CutsFrom call enc f p recs) (hf : Function.Injective f)
    (hrecs : Unbordered recs) (hsizes : ∀ k, 0 < sizes k) :
    Delivers call (enc 0) sizes (recs.flatten.map f) ↔
      recs.flatten.length ≤ sizes 0 ∧ ∀ r ∈ recs, r.length ≤ recs.flatten.length % p := by
  have hzero := h.pieceAt_zero sizes
  constructor
  · intro hdelivers
    have hle := h.le_of_delivers hf hrecs (hsizes 0) hdelivers
    refine ⟨hle, cutAll_eq_nil_iff.mp ?_⟩
    have hone : received call (enc 0) sizes 1 = recs.flatten.map f := by
      rw [received_succ, hzero, List.take_of_length_le hle]
      rfl
    have hnone := hdelivers.pieceAt_eq_nil hone (Nat.le_refl 1)
    rw [h.pieceAt_eq, hone, List.length_map, List.map_eq_nil_iff, List.take_eq_nil_iff] at hnone
    exact hnone.resolve_left (Nat.pos_iff_ne_zero.mp (hsizes 1))
  · rintro ⟨hle, hcut⟩
    refine delivers_of_first (by rw [hzero, List.take_of_length_le hle]) fun j hj _ => ?_
    rw [h.pieceAt_eq, hj, List.length_map, cutAll_eq_nil_iff.mpr hcut, List.take_nil, List.map_nil]

end Cut

end Records

/-! ## Lines and stanzas -/

section Lines

variable {α : Type*} {nl : α}

/-- A single line. -/
theorem unbordered_line {line : List α} (hline : nl ∉ line) : Unbordered [line ++ [nl]] := by
  intro pre r post m hrecs hpos hle hend
  obtain ⟨rfl, hr⟩ | ⟨t, rfl, ht⟩ := List.cons_eq_append_iff.mp hrecs
  · obtain ⟨rfl, rfl⟩ := List.cons.inj hr
    refine ⟨rfl, ?_⟩
    by_contra hne
    rw [List.length_append, List.length_singleton] at hle hne
    rw [List.take_append_of_le_length (by omega), List.flatten_singleton] at hend
    -- the end of the line is the newline
    have hlast : nl ∈ line.take m := by
      have hne' : line.take m ≠ [] := by
        rw [← List.length_pos_iff, List.length_take]
        omega
      have hgetLast := hend.getLast hne'
      rw [List.getLast_append_singleton] at hgetLast
      rw [← hgetLast]
      exact List.getLast_mem hne'
    exact hline (List.mem_of_mem_take hlast)
  · cases t <;> cases ht

/-- Lines, each with its newline. -/
def unlines (nl : α) (lines : List (List α)) : List α := lines.flatMap fun line => line ++ [nl]

/-- Lines and an empty line. The first one is named, since it tells stanzas apart. -/
def stanza (nl : α) (first : List α) (rest : List (List α)) : List α :=
  unlines nl (first :: rest) ++ [nl]

/-- The lines of a stanza are not empty. -/
def LinesOk (nl : α) (lines : List (List α)) : Prop := ∀ line ∈ lines, line ≠ [] ∧ nl ∉ line

/-- Newlines do not follow each other. -/
theorem isChain_unlines {lines : List (List α)} (h : LinesOk nl lines) :
    (unlines nl lines).IsChain fun a b => a ≠ nl ∨ b ≠ nl := by
  induction lines with
  | nil => exact List.IsChain.nil
  | cons line lines ih =>
    obtain ⟨hne, hnl⟩ := h line List.mem_cons_self
    have hrest := ih fun l hl => h l (List.mem_cons_of_mem line hl)
    have hline : (line ++ [nl]).IsChain fun a b => a ≠ nl ∨ b ≠ nl := by
      rw [List.isChain_append]
      refine ⟨?_, List.isChain_singleton nl, ?_⟩
      · refine List.Pairwise.isChain (List.pairwise_of_forall_mem_list fun a ha b _ => ?_)
        exact Or.inl fun heq => hnl (heq ▸ ha)
      · intro a ha b _
        exact Or.inl fun heq => hnl (heq ▸ List.mem_of_getLast? ha)
    rw [unlines, List.flatMap_cons, List.isChain_append]
    refine ⟨hline, hrest, fun a _ b hb => Or.inr ?_⟩
    -- what follows a newline is the first letter of a line
    cases lines with
    | nil => cases hb
    | cons next lines =>
      obtain ⟨hne', hnl'⟩ := h next (List.mem_cons_of_mem line List.mem_cons_self)
      rw [List.flatMap_cons, List.append_assoc, List.head?_append_of_ne_nil _ hne'] at hb
      exact fun heq => hnl' (heq ▸ List.mem_of_head? hb)

theorem count_unlines [DecidableEq α] {lines : List (List α)} (h : LinesOk nl lines) :
    (unlines nl lines).count nl = lines.length := by
  induction lines with
  | nil => rfl
  | cons line lines ih =>
    rw [unlines, List.flatMap_cons, List.count_append, List.count_append,
      List.count_eq_zero_of_not_mem (h line List.mem_cons_self).2, List.count_singleton_self,
      List.length_cons]
    have hrest := ih fun l hl => h l (List.mem_cons_of_mem line hl)
    rw [unlines] at hrest
    omega

/-- A stanza that ends another one with as many lines has the end of its first line. -/
theorem first_suffix_of_stanza [DecidableEq α] {first first' : List α} {rest rest' : List (List α)}
    (h : LinesOk nl (first :: rest)) (h' : LinesOk nl (first' :: rest'))
    (hlength : rest.length = rest'.length)
    (hend : stanza nl first rest <:+ stanza nl first' rest') : first <:+ first' := by
  obtain ⟨front, hfront⟩ := hend
  have hcount := congrArg (List.count nl) hfront
  simp only [stanza, List.count_append, count_unlines h, count_unlines h', List.length_cons,
    hlength] at hcount
  have hnone : nl ∉ front := List.count_eq_zero.mp (by omega)
  -- so both begin with one line
  have hsame : (front ++ first) ++ nl :: (unlines nl rest ++ [nl]) =
      first' ++ nl :: (unlines nl rest' ++ [nl]) := by
    simpa [stanza, unlines] using hfront
  have htake : ∀ (l t : List α), nl ∉ l →
      (l ++ nl :: t).takeWhile (fun a => !decide (a = nl)) = l := by
    intro l t hl
    rw [List.takeWhile_append_of_pos, List.takeWhile_cons_of_neg (by simp), List.append_nil]
    intro a ha
    simpa using fun heq : a = nl => hl (heq ▸ ha)
  have hfirst : nl ∉ front ++ first := by
    rw [List.mem_append, not_or]
    exact ⟨hnone, (h first List.mem_cons_self).2⟩
  have hline := htake (front ++ first) (unlines nl rest ++ [nl]) hfirst
  rw [hsame, htake _ _ (h' first' List.mem_cons_self).2] at hline
  exact ⟨front, hline.symm⟩

theorem newlines_suffix_stanza (nl : α) (first : List α) (rest : List (List α)) :
    [nl, nl] <:+ stanza nl first rest := by
  have hlast : [nl] <:+ unlines nl (first :: rest) := by
    rcases List.eq_nil_or_concat (first :: rest) with hnil | ⟨init, line, heq⟩
    · cases hnil
    · rw [heq, unlines, List.concat_eq_append, List.flatMap_append, List.flatMap_singleton]
      exact ⟨init.flatMap (fun line => line ++ [nl]) ++ line, by rw [List.append_assoc]⟩
  obtain ⟨front, hfront⟩ := hlast
  exact ⟨front, by rw [stanza, ← hfront, List.append_assoc]; rfl⟩

/-- A beginning of a stanza that ends in two newlines is the stanza. -/
theorem take_stanza {first : List α} {rest : List (List α)} (h : LinesOk nl (first :: rest))
    {m : ℕ} (hpos : 0 < m) (hle : m ≤ (stanza nl first rest).length) {text : List α}
    (htext : [nl, nl] <:+ text) (hend : (stanza nl first rest).take m <:+ text) :
    m = (stanza nl first rest).length := by
  by_contra hne
  have hlen : (stanza nl first rest).length = (unlines nl (first :: rest)).length + 1 := by
    rw [stanza, List.length_append, List.length_singleton]
  have htake : (stanza nl first rest).take m = (unlines nl (first :: rest)).take m := by
    rw [stanza, List.take_append_of_le_length (by omega)]
  rw [htake] at hend
  rcases List.suffix_or_suffix_of_suffix htext hend with htwo | hfew
  · have hinside := htwo.isInfix.trans (List.take_prefix m (unlines nl (first :: rest))).isInfix
    have hchain := List.IsChain.infix (isChain_unlines h) hinside
    rw [List.isChain_pair] at hchain
    exact hchain.elim (fun hn => hn rfl) (fun hn => hn rfl)
  · -- it would be only newlines
    obtain ⟨hne', hnl'⟩ := h first List.mem_cons_self
    obtain ⟨a, first', rfl⟩ := List.exists_cons_of_ne_nil hne'
    obtain ⟨m', rfl⟩ := Nat.exists_eq_add_of_le' hpos
    have hmem : a ∈ [nl, nl] := by
      apply hfew.subset
      rw [unlines, List.flatMap_cons, List.cons_append, List.cons_append, List.take_succ_cons]
      exact List.mem_cons_self
    have heq : a = nl := by simpa using hmem
    exact hnl' (heq ▸ List.mem_cons_self)

/-- Numbered stanzas of the same number of lines, whose first lines are not ends of each
other. -/
theorem unbordered_stanzas [DecidableEq α] {count : ℕ} {first : ℕ → List α}
    {rest : ℕ → List (List α)} (hok : ∀ i, LinesOk nl (first i :: rest i))
    (hlength : ∀ i j, (rest i).length = (rest j).length)
    (hdiffer : ∀ i j, first i <:+ first j → i = j) :
    Unbordered ((List.range count).map fun i => stanza nl (first i) (rest i)) := by
  intro pre r post m hrecs hpos hle hend
  -- which record it is, and which one is the last
  have hcount := congrArg List.length hrecs
  simp only [List.length_map, List.length_range, List.length_append, List.length_cons] at hcount
  have hr : r = stanza nl (first pre.length) (rest pre.length) := by
    have hget := congrArg (fun recs => recs[pre.length]?) hrecs
    simp only [List.getElem?_map, List.getElem?_append_right (Nat.le_refl _), Nat.sub_self,
      List.getElem?_cons_zero, List.getElem?_range (show pre.length < count by omega),
      Option.map_some, Option.some.injEq] at hget
    exact hget.symm
  have hlast : stanza nl (first (count - 1)) (rest (count - 1)) <:+
      ((List.range count).map fun i => stanza nl (first i) (rest i)).flatten := by
    obtain ⟨c, rfl⟩ := Nat.exists_eq_add_of_le' (show 1 ≤ count by omega)
    rw [Nat.add_sub_cancel, List.range_succ, List.map_append, List.flatten_append,
      List.map_singleton, List.flatten_singleton]
    exact List.suffix_append _ _
  rw [hr] at hle hend
  have hm := take_stanza (hok pre.length) hpos hle ((newlines_suffix_stanza nl _ _).trans hlast)
    hend
  rw [hm, List.take_length] at hend
  have hsame : pre.length = count - 1 := by
    rcases List.suffix_or_suffix_of_suffix hend hlast with hends | hends
    · exact hdiffer _ _ (first_suffix_of_stanza (hok _) (hok _) (hlength _ _) hends)
    · exact (hdiffer _ _ (first_suffix_of_stanza (hok _) (hok _) (hlength _ _) hends)).symm
  refine ⟨List.eq_nil_of_length_eq_zero (by omega), ?_⟩
  rw [hr]
  exact hm

end Lines

end ProcFS.Lib
