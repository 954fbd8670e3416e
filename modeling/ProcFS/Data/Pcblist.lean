import ProcFS.Lib.Bytes

/-!
# ProcFS.Data.Pcblist — streams of length-tagged blocks

The socket tables of the kernel come as a stream: a generation record, then the blocks of
the sockets, then another generation record. A block says how long it is and of which kind
it is, and is padded to 8 bytes. The daemon walks from block to block and stops at the first
kind it does not know. The second word of a generation record is a count, and it stands where
a block has its kind.

* `walkBlocks_bytes`: the walk over one block.
* `walkStream_eq`: the walk over a whole stream.
-/

namespace ProcFS.Data

open Lib (leBytes fieldAt u32At)

/-! ## The walk -/

/-- `PROCFS_ROUNDUP64` of a `uint32_t`: the sum is made in 32 bits. -/
def procfsRoundup64 (x : UInt32) : ℕ := (x + 7).toNat / 8 * 8

/-- The loop over the blocks: `p` is the memory from the pointer on, of which `left` bytes
lie before `end`. The switch is `step`, and gives nothing for an unknown kind. -/
def walkBlocks {σ : Type} (step : ℕ → List UInt8 → σ → Option σ) (left : ℕ) (p : List UInt8)
    (s : σ) : σ :=
  if 8 ≤ left then
    let blen := u32At 0 p
    let kind := (u32At 4 p).toNat
    if blen < 8 then s
    else
      let adv := procfsRoundup64 blen
      -- the padded length is 0 when the sum wrapped around
      if left < adv ∨ adv = 0 then s
      else
        match step kind p s with
        | none => s
        | some s' => walkBlocks step (left - adv) (p.drop adv) s'
  else s
termination_by left
decreasing_by
  rename_i hadv
  show left - adv < left
  omega

/-! ## Blocks -/

/-- A block of a kind, with room for a record of `size` bytes at least. Its padded length
is a number of 32 bits. -/
structure Block (kind size : ℕ) where
  body : List UInt8
  pad : List UInt8
  full : size ≤ 8 + body.length
  short : 8 + body.length + 7 < 2 ^ 32
  padded : pad.length = (8 + body.length + 7) / 8 * 8 - (8 + body.length)

namespace Block

variable {kind size : ℕ}

def bytes (b : Block kind size) : List UInt8 :=
  leBytes 4 (8 + b.body.length) ++ (leBytes 4 kind ++ (b.body ++ b.pad))

theorem length_bytes (b : Block kind size) :
    b.bytes.length = (8 + b.body.length + 7) / 8 * 8 := by
  have hpad := b.padded
  simp only [bytes, List.length_append, Lib.length_leBytes]
  omega

/-- The record of a block lies within it. -/
theorem size_le_length (b : Block kind size) : size ≤ b.bytes.length := by
  have hfull := b.full
  rw [length_bytes]
  omega

theorem u32At_len (b : Block kind size) (rest : List UInt8) :
    u32At 0 (b.bytes ++ rest) = UInt32.ofNat (8 + b.body.length) := by
  have hshort := b.short
  rw [u32At, bytes, List.append_assoc, Lib.fieldAt_leBytes (by omega)]

theorem u32At_kind (b : Block kind size) (hkind : kind < 2 ^ 32) (rest : List UInt8) :
    (u32At 4 (b.bytes ++ rest)).toNat = kind := by
  have hskip := Lib.fieldAt_skip (leBytes 4 (8 + b.body.length)) 4 0
    (leBytes 4 kind ++ (b.body ++ b.pad ++ rest))
  rw [Lib.length_leBytes, Nat.add_zero, Lib.fieldAt_leBytes hkind] at hskip
  rw [u32At, bytes, List.append_assoc, List.append_assoc, hskip, UInt32.toNat_ofNat']
  exact Nat.mod_eq_of_lt hkind

/-- A field of the record does not depend on what follows the block. -/
theorem fieldAt_append (b : Block kind size) {w off : ℕ} (h : off + w ≤ size)
    (rest : List UInt8) : fieldAt w off (b.bytes ++ rest) = fieldAt w off b.bytes :=
  Lib.fieldAt_append (Nat.le_trans h b.size_le_length) rest

/-- The walk over one block: the switch is made on its kind, and unless it ends the walk,
the walk goes on behind the block. -/
theorem walkBlocks_bytes {σ : Type} {step : ℕ → List UInt8 → σ → Option σ} (b : Block kind size)
    (hkind : kind < 2 ^ 32) (left : ℕ) (rest : List UInt8) (s : σ) :
    walkBlocks step (b.bytes.length + left) (b.bytes ++ rest) s =
      match step kind (b.bytes ++ rest) s with
      | none => s
      | some s' => walkBlocks step left rest s' := by
  have hshort := b.short
  have hlen := b.length_bytes
  have hblen : (UInt32.ofNat (8 + b.body.length)).toNat = 8 + b.body.length := by
    rw [UInt32.toNat_ofNat']
    omega
  have hadv : procfsRoundup64 (UInt32.ofNat (8 + b.body.length)) = b.bytes.length := by
    have hseven : (7 : UInt32).toNat = 7 := rfl
    rw [procfsRoundup64, UInt32.toNat_add, hblen, hseven, Nat.mod_eq_of_lt hshort, hlen]
  have hlong : ¬ UInt32.ofNat (8 + b.body.length) < 8 := by
    have height : (8 : UInt32).toNat = 8 := rfl
    rw [UInt32.lt_iff_toNat_lt, hblen, height]
    omega
  rw [walkBlocks, if_pos (by omega)]
  simp only [b.u32At_len, b.u32At_kind hkind, if_neg hlong, hadv]
  rw [if_neg (by omega), Nat.add_sub_cancel_left, List.drop_left]

end Block

/-! ## Generation records -/

/-- `struct xinpgen` and `struct xunpgen`. -/
structure Generation where
  count : UInt32
  gen : UInt64
  sogen : UInt64
deriving DecidableEq, Repr

/-- A generation record is 24 bytes long. -/
def sizeofXinpgen : ℕ := 24

/-- A generation record looks like a block of the kind that its count is. -/
def Generation.block (g : Generation) : Block g.count.toNat sizeofXinpgen where
  body := leBytes 8 g.gen.toNat ++ leBytes 8 g.sogen.toNat
  pad := []
  full := by
    rw [List.length_append, Lib.length_leBytes, Lib.length_leBytes]
    decide
  short := by
    rw [List.length_append, Lib.length_leBytes, Lib.length_leBytes]
    decide
  padded := by
    rw [List.length_append, Lib.length_leBytes, Lib.length_leBytes]
    rfl

def Generation.bytes (g : Generation) : List UInt8 := g.block.bytes

theorem Generation.length_bytes (g : Generation) : g.bytes.length = 24 := by
  rw [bytes, Block.length_bytes]
  show (8 + (leBytes 8 g.gen.toNat ++ leBytes 8 g.sogen.toNat).length + 7) / 8 * 8 = 24
  rw [List.length_append, Lib.length_leBytes, Lib.length_leBytes]

/-- The walk over a generation record at the end of a stream. -/
theorem Generation.walkBlocks_bytes {σ : Type} {step : ℕ → List UInt8 → σ → Option σ}
    (g : Generation) (slack : List UInt8) (s : σ) :
    walkBlocks step g.bytes.length (g.bytes ++ slack) s =
      (step g.count.toNat (g.bytes ++ slack) s).getD s := by
  have hend : ∀ s' : σ, walkBlocks step 0 slack s' = s' := by
    intro s'
    rw [walkBlocks, if_neg (by decide)]
  refine (g.block.walkBlocks_bytes g.count.toNat_lt 0 slack s).trans ?_
  show _ = (step g.count.toNat (g.block.bytes ++ slack) s).getD s
  cases step g.count.toNat (g.block.bytes ++ slack) s with
  | none => rfl
  | some s' => exact hend s'

/-! ## Streams -/

/-- The walk over a stream of `len` bytes: it starts behind the first generation record. -/
def walkStream {σ : Type} (step : ℕ → List UInt8 → σ → Option σ) (len : ℕ) (base : List UInt8)
    (s : σ) : σ :=
  let adv := procfsRoundup64 (u32At 0 base)
  walkBlocks step (len - adv) (base.drop adv) s

/-- A list of sockets between two generation records, the second of which counts them. -/
structure Pcblist (α : Type) where
  lead : Generation
  sockets : List α
  trail : Generation
  counted : trail.count.toNat = sockets.length

section Stream

variable {α σ : Type} {step : ℕ → List UInt8 → σ → Option σ} (bytesOf : α → List UInt8)

def Pcblist.bytes (l : Pcblist α) : List UInt8 :=
  l.lead.bytes ++ (l.sockets.flatMap bytesOf ++ l.trail.bytes)

theorem walkStream_lead (g : Generation) (rest slack : List UInt8) (s : σ) :
    walkStream step (g.bytes ++ rest).length (g.bytes ++ rest ++ slack) s =
      walkBlocks step rest.length (rest ++ slack) s := by
  have hadv : procfsRoundup64 (u32At 0 (g.bytes ++ rest ++ slack)) = g.bytes.length := by
    have hlen : u32At 0 (g.bytes ++ rest ++ slack) = UInt32.ofNat 24 := by
      rw [List.append_assoc]
      refine (g.block.u32At_len (rest ++ slack)).trans ?_
      show UInt32.ofNat (8 + (leBytes 8 g.gen.toNat ++ leBytes 8 g.sogen.toNat).length) = _
      rw [List.length_append, Lib.length_leBytes, Lib.length_leBytes]
    rw [hlen, g.length_bytes]
    rfl
  simp only [walkStream, hadv]
  rw [List.length_append, Nat.add_sub_cancel_left, List.append_assoc, List.drop_left]

/-- The walk over some sockets, when one of them takes the state on by `note`. -/
theorem walkBlocks_sockets {note : σ → α → σ}
    (hnote : ∀ (a : α) left rest s,
      walkBlocks step ((bytesOf a).length + left) (bytesOf a ++ rest) s =
      walkBlocks step left rest (note s a))
    (sockets : List α) (left : ℕ) (rest : List UInt8) (s : σ) :
    walkBlocks step ((sockets.flatMap bytesOf).length + left) (sockets.flatMap bytesOf ++ rest) s =
      walkBlocks step left rest (sockets.foldl note s) := by
  induction sockets generalizing s with
  | nil => rw [List.flatMap_nil, List.length_nil, Nat.zero_add, List.nil_append, List.foldl_nil]
  | cons a sockets ih =>
    rw [List.flatMap_cons, List.length_append, Nat.add_assoc, List.append_assoc, hnote, ih,
      List.foldl_cons]

/-- What the walk over a whole stream comes to: the sockets, and then the switch is made once
more, with the number of the sockets for a kind. -/
theorem walkStream_eq {note : σ → α → σ}
    (hnote : ∀ (a : α) left rest s,
      walkBlocks step ((bytesOf a).length + left) (bytesOf a ++ rest) s =
      walkBlocks step left rest (note s a))
    (l : Pcblist α) (slack : List UInt8) (s : σ) :
    walkStream step (l.bytes bytesOf).length (l.bytes bytesOf ++ slack) s =
      (step l.sockets.length (l.trail.bytes ++ slack) (l.sockets.foldl note s)).getD
        (l.sockets.foldl note s) := by
  rw [Pcblist.bytes, walkStream_lead, List.length_append, List.append_assoc,
    walkBlocks_sockets bytesOf hnote, Generation.walkBlocks_bytes, l.counted]

end Stream

end ProcFS.Data
