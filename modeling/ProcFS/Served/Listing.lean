import ProcFS.Served.Answers
import ProcFS.Transfer

/-!
# ProcFS.Served.Listing — a listing through the channel

`Transfer` is about the pieces of a listing, with a daemon that is a function of the offset.
`Served` is about single calls, whatever else goes on at the channel. Here the two meet: every pass
of `procfs_ctl_request_blob` is a call of its own, among the calls of others, daemons that come and
go and replies that come late.

* `Verdict.piece`: a call for a piece returns that piece of the listing, or an error.
* `passes_lossless`: the reader ends with the whole listing, or with the error of one of its calls.
-/

namespace ProcFS.Served

open Ctl (Args CtlReq Result procfsCtlMaxpayload)
open Daemon (World)
open Lib (chunk Reader)
open Transfer (blobPass blobSlice text)

/-- `procfs_ctl_request(type, 0, offset, chunk, sizeof(chunk), &got)`. -/
def pieceArgs (type : UInt32) (off : ℕ) : Args :=
  ⟨type, 0, UInt64.ofNat off, none, procfsCtlMaxpayload⟩

/-- What a call has returned, with or without having had a slot. -/
def Ended (c : Ctl.State) (i : ℕ) (r : Result) : Prop :=
  c.pc i = .returned r ∨ ∃ e, r = .error e ∧ c.pc i = .refused e

/-- The passes of a call of `procfs_ctl_request_blob` from some point on, by the calls that they
made, and what it returns. -/
inductive Passes (args : ℕ → Args) (c : Ctl.State) (type : UInt32) :
    List ℕ → Reader UInt8 → Result → Prop where
  | last {i r answer result} (hargs : args i = pieceArgs type r.off) (hended : Ended c i answer)
      (hpass : blobPass r answer = .returned result) : Passes args c type [i] r result
  | more {i calls r r' answer result} (hargs : args i = pieceArgs type r.off)
      (hended : Ended c i answer) (hpass : blobPass r answer = .running r')
      (hrest : Passes args c type calls r' result) : Passes args c type (i :: calls) r result

/-- Every daemon answers the requests for a listing from the same blob. -/
def Steady (w : World) (type : UInt32) (built : Option (List UInt8)) : Prop :=
  ∀ n req, req.type = type → w.answer n req = ⟨0, blobSlice built req.arg.toNat⟩

section Pieces

variable {w : World} {args : ℕ → Args} {acts : List Act} {s : System} {type : UInt32}
  {built : Option (List UInt8)}

/-- A call for a piece that does not fail returns this piece. -/
theorem Verdict.piece (hsteady : Steady w type built) {i off : ℕ} (hoff : off < 2 ^ 64)
    (hargs : args i = pieceArgs type off) {r : Result} (h : Verdict w args acts s i r) :
    r = .ok (chunk (text built) off procfsCtlMaxpayload) ∨ ∃ e, r = .error e := by
  cases h with
  | hungUp _ | gaveUp _ | unsent _ _ => exact Or.inr ⟨_, rfl⟩
  | @answer tk n _ =>
    refine Or.inl ?_
    -- the request of this call is for a piece of the listing, at the offset
    have htype : (Ctl.State.request (args i) tk).type = type := by
      rw [hargs]
      rfl
    have harg : (Ctl.State.request (args i) tk).arg.toNat = off := by
      rw [hargs]
      exact UInt64.toNat_ofNat_of_lt' hoff
    have hcap : (args i).outcap = procfsCtlMaxpayload := by
      rw [hargs]
      rfl
    rw [hsteady n _ htype, harg, hcap, Transfer.blobSlice_eq_chunk, resultOf, if_pos rfl, chunk,
      List.take_take, Nat.min_self]

/-- A pass that gets its piece takes the reader on, or is the last one and leaves it with the
listing. -/
theorem blobPass_piece {r : Reader UInt8} (hr : r.Synced (text built)) :
    blobPass r (.ok (chunk (text built) r.off procfsCtlMaxpayload)) = .returned (.ok (text built)) ∨
      ∃ r', r'.Synced (text built) ∧
        blobPass r (.ok (chunk (text built) r.off procfsCtlMaxpayload)) = .running r' := by
  rw [Transfer.blobPass_chunk]
  split
  · rename_i hshort
    exact Or.inl (by rw [hr.got_eq_of_short hshort])
  · exact Or.inr ⟨_, hr.read procfsCtlMaxpayload, rfl⟩

/-- Whatever else goes on at the channel: a reader that has made its passes has the whole listing,
or the error of one of its calls. -/
theorem passes_lossless (hwf : WellFormed w args) (hcurrent : AllCurrent w args acts)
    (hrun : runFrom w args acts = some s) (hsteady : Steady w type built)
    (hlen : (text built).length < 2 ^ 64) {calls : List ℕ} {r : Reader UInt8} {result : Result}
    (hr : r.Synced (text built)) (hpasses : Passes args s.chan type calls r result) :
    result = .ok (text built) ∨
      ∃ i ∈ calls, ∃ e, result = .error e ∧ Ended s.chan i (.error e) := by
  -- what a call of the reader has returned
  have hpiece : ∀ i off answer, off ≤ (text built).length → args i = pieceArgs type off →
      Ended s.chan i answer →
      answer = .ok (chunk (text built) off procfsCtlMaxpayload) ∨ ∃ e, answer = .error e := by
    rintro i off answer hoff hargs (hreturned | ⟨e, rfl, -⟩)
    · have hfinished := Ctl.finished_iff.mpr hreturned
      have hverdict := (told_of_run hwf hcurrent hrun i).result answer (Or.inr hfinished)
      exact hverdict.piece hsteady (Nat.lt_of_le_of_lt hoff hlen) hargs
    · exact Or.inr ⟨e, rfl⟩
  -- the reader keeps what comes before its offset, pass after pass
  induction hpasses with
  | @last i r answer result hargs hended hpass =>
    rcases hpiece i r.off answer hr.off_le hargs hended with rfl | ⟨e, rfl⟩
    · rcases blobPass_piece hr with hdone | ⟨r', -, hgo⟩
      · rw [hdone] at hpass
        cases hpass
        exact Or.inl rfl
      · rw [hgo] at hpass
        cases hpass
    · cases hpass
      exact Or.inr ⟨i, List.mem_cons_self, e, rfl, hended⟩
  | @more i calls r r' answer result hargs hended hpass _ ih =>
    rcases hpiece i r.off answer hr.off_le hargs hended with rfl | ⟨e, rfl⟩
    · rcases blobPass_piece hr with hdone | ⟨r'', hr'', hgo⟩
      · rw [hdone] at hpass
        cases hpass
      · rw [hgo] at hpass
        cases hpass
        rcases ih hr'' with hok | ⟨j, hj, herror⟩
        · exact Or.inl hok
        · exact Or.inr ⟨j, List.mem_cons_of_mem i hj, herror⟩
    · cases hpass

end Pieces

end ProcFS.Served
