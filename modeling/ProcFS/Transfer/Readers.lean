import Mathlib.Logic.Function.Basic
import ProcFS.Lib.Runs
import ProcFS.Transfer

/-!
# ProcFS.Transfer.Readers — many readers of one listing

The daemon keeps one blob for each kind of listing. Any request with offset 0 builds it
anew, whoever makes it, and a reader that is in the middle of the old one goes on in the
new one. Requests are served one at a time, in any order, and what is built may be
different each time. A reader may also get an error and give up, and the daemon may
still serve the request that it made.

A reader that finishes has one whole listing as long as nobody makes the daemon build a
different one while it is midway; otherwise it can end up with parts of two.

* `sound_step`: one request, when nobody is disturbed.
* `listings_whole`: then every reader that finishes has one listing.
-/

namespace ProcFS.Transfer

open Ctl (Result procfsCtlMaxpayload)
open Lib (chunk Reader)

/-- The blobs of the daemon, by the type of the request, and the readers. `builds` is no
variable of the source: it is what was built so far. -/
structure Shared where
  blob : UInt32 → Option (List UInt8)
  call : ℕ → BlobCall
  builds : List (UInt32 × Option (List UInt8))

/-- Nothing is built, and every reader is about to make its first request. -/
def opening : Shared := ⟨fun _ => none, fun _ => .running ⟨0, []⟩, []⟩

/-- What happens next. `built` is what the daemon would build now. -/
inductive Event where
  /-- The request of a reader is served, and the reader gets the answer. -/
  | answered (i : ℕ) (built : Option (List UInt8))
  /-- A reader gets an error. -/
  | failed (i : ℕ) (error : Int32)
  /-- A request is served that nobody waits for any more. -/
  | late (type : UInt32) (off : ℕ) (built : Option (List UInt8))

namespace Shared

/-- The call of a reader goes on. -/
def setCall (s : Shared) (i : ℕ) (call : BlobCall) : Shared :=
  { s with call := Function.update s.call i call }

/-- The daemon serves a request of type `type` with offset `off`. -/
def serve (s : Shared) (type : UInt32) (off : ℕ) (built : Option (List UInt8)) : Shared :=
  { s with
    blob := Function.update s.blob type (serveListing (s.blob type) built off).1
    builds := if off = 0 then s.builds ++ [(type, built)] else s.builds }

/-- One request. `types` are the listings that the readers read. -/
def step (types : ℕ → UInt32) (s : Shared) : Event → Option Shared
  | .answered i built =>
    match s.call i with
    | .running r =>
      let payload := (serveListing (s.blob (types i)) built r.off).2
      some ((s.serve (types i) r.off built).setCall i (blobPass r (.ok payload)))
    | .returned _ => none
  | .failed i error =>
    match s.call i with
    | .running r => some (s.setCall i (blobPass r (.error error)))
    | .returned _ => none
  | .late type off built => some (s.serve type off built)

@[simp] theorem setCall_call_self (s : Shared) (i : ℕ) (c : BlobCall) :
    (s.setCall i c).call i = c := by
  simp [setCall]

theorem setCall_call_of_ne {i j : ℕ} (h : j ≠ i) (s : Shared) (c : BlobCall) :
    (s.setCall i c).call j = s.call j := by
  simp [setCall, h]

@[simp] theorem serve_blob_self (s : Shared) (type : UInt32) (off : ℕ)
    (built : Option (List UInt8)) :
    (s.serve type off built).blob type = if off = 0 then built else s.blob type := by
  simp [serve, serveListing]

theorem serve_blob_of_ne {type type' : UInt32} (h : type' ≠ type) (s : Shared) (off : ℕ)
    (built : Option (List UInt8)) : (s.serve type off built).blob type' = s.blob type' := by
  simp [serve, h]

theorem mem_builds_serve {s : Shared} {b : UInt32 × Option (List UInt8)} (h : b ∈ s.builds)
    (type : UInt32) (off : ℕ) (built : Option (List UInt8)) :
    b ∈ (s.serve type off built).builds := by
  unfold serve
  by_cases hoff : off = 0
  · simp [hoff, h]
  · simp [hoff, h]

end Shared

/-- What one step can do: an answer takes a call a pass further, an error ends it. -/
inductive Served (types : ℕ → UInt32) (s : Shared) : Event → Shared → Prop where
  | answered {i built r} (hcall : s.call i = .running r) :
      Served types s (.answered i built) ((s.serve (types i) r.off built).setCall i
        (blobPass r (.ok (blobSlice ((s.serve (types i) r.off built).blob (types i)) r.off))))
  | failed {i error r} (hcall : s.call i = .running r) :
      Served types s (.failed i error) (s.setCall i (.returned (.error error)))
  | late {type off built} : Served types s (.late type off built) (s.serve type off built)

theorem served_of_step {types : ℕ → UInt32} {s s' : Shared} {e : Event}
    (h : s.step types e = some s') : Served types s e s' := by
  cases e with
  -- the reply is cut out of the blob as it is after the request
  | answered i built =>
    cases hcall : s.call i with
    | running r =>
      simp only [Shared.step, hcall] at h
      cases h
      have hblob : (serveListing (s.blob (types i)) built r.off).2 =
          blobSlice ((s.serve (types i) r.off built).blob (types i)) r.off := by
        rw [Shared.serve_blob_self]
        rfl
      rw [hblob]
      exact .answered hcall
    | returned result => simp [Shared.step, hcall] at h
  | failed i error =>
    cases hcall : s.call i with
    | running r =>
      simp only [Shared.step, hcall] at h
      cases h
      exact .failed hcall
    | returned result => simp [Shared.step, hcall] at h
  | late type off built =>
    cases h
    exact .late

/-! ## The invariant -/

/-- A reader of this listing is midway. -/
def Midway (types : ℕ → UInt32) (s : Shared) (type : UInt32) : Prop :=
  ∃ j r, types j = type ∧ s.call j = .running r ∧ r.off ≠ 0

/-- The condition on a request: one that makes the daemon build a listing, while a reader
is midway, builds the same one again. -/
def Undisturbed (types : ℕ → UInt32) (s : Shared) : Event → Prop
  | .answered i built =>
    ∀ r, s.call i = .running r → r.off = 0 → Midway types s (types i) → built = s.blob (types i)
  | .failed _ _ => True
  | .late type off built => off = 0 → Midway types s type → built = s.blob type

/-- The reader has a part of the present blob, which was built. -/
structure Follows (s : Shared) (type : UInt32) (r : Reader UInt8) : Prop where
  synced : r.Synced (text (s.blob type))
  built : (type, s.blob type) ∈ s.builds

/-- A call is about to begin, follows the present blob or has returned a listing that was
built. -/
def Sound (s : Shared) (type : UInt32) : BlobCall → Prop
  | .running r => r = ⟨0, []⟩ ∨ r.off ≠ 0 ∧ Follows s type r
  | .returned (.ok out) => ∃ built, (type, built) ∈ s.builds ∧ out = text built
  | .returned (.error _) => True

theorem Follows.serve {s : Shared} {type type' : UInt32} {r : Reader UInt8} {off : ℕ}
    {built : Option (List UInt8)} (h : Follows s type' r)
    (hsame : type' = type → off = 0 → built = s.blob type) :
    Follows (s.serve type off built) type' r := by
  -- the blob of a reader changes only if its kind of listing is built anew
  have hblob : (s.serve type off built).blob type' = s.blob type' := by
    by_cases htype : type' = type
    · rw [htype, Shared.serve_blob_self]
      by_cases hoff : off = 0
      · rw [if_pos hoff, hsame htype hoff]
      · rw [if_neg hoff]
    · exact Shared.serve_blob_of_ne htype s off built
  constructor
  · rw [hblob]
    exact h.synced
  · rw [hblob]
    exact Shared.mem_builds_serve h.built type off built

/-- Whose request is served follows the blob that it is served from. -/
theorem Follows.of_request {s : Shared} {type : UInt32} {r : Reader UInt8}
    (h : Sound s type (.running r)) (built : Option (List UInt8)) :
    Follows (s.serve type r.off built) type r := by
  rcases h with rfl | ⟨hoff, hfollows⟩
  · refine ⟨Lib.Reader.synced_init _, ?_⟩
    simp [Shared.serve, serveListing]
  · exact hfollows.serve fun _ hzero => absurd hzero hoff

/-- A pass of the loop. -/
theorem Follows.pass {s : Shared} {type : UInt32} {r : Reader UInt8} (h : Follows s type r) :
    Sound s type (blobPass r (.ok (blobSlice (s.blob type) r.off))) := by
  rw [blobSlice_eq_chunk, blobPass_chunk]
  by_cases hshort :
      (chunk (text (s.blob type)) r.off procfsCtlMaxpayload).length < procfsCtlMaxpayload
  · rw [if_pos hshort]
    exact ⟨s.blob type, h.built, h.synced.got_eq_of_short hshort⟩
  · rw [if_neg hshort]
    refine Or.inr ⟨?_, h.synced.read _, h.built⟩
    show r.off + (chunk (text (s.blob type)) r.off procfsCtlMaxpayload).length ≠ 0
    have hmax : procfsCtlMaxpayload = 2048 := rfl
    omega

theorem Sound.serve {s : Shared} {type type' : UInt32} {c : BlobCall} {off : ℕ}
    {built : Option (List UInt8)} (h : Sound s type' c)
    (hsame : ∀ r, c = .running r → r.off ≠ 0 → type' = type → off = 0 → built = s.blob type) :
    Sound (s.serve type off built) type' c := by
  cases c with
  | running r =>
    rcases h with hinit | ⟨hoff, hfollows⟩
    · exact Or.inl hinit
    · exact Or.inr ⟨hoff, hfollows.serve (hsame r rfl hoff)⟩
  | returned result =>
    cases result with
    | error e => trivial
    | ok out =>
      rcases h with ⟨b, hb, hout⟩
      exact ⟨b, Shared.mem_builds_serve hb type off built, hout⟩

/-- Where the calls are does not matter for a single one. -/
theorem Sound.setCall {s : Shared} {type : UInt32} {c : BlobCall} (h : Sound s type c) (k : ℕ)
    (c' : BlobCall) : Sound (s.setCall k c') type c := by
  cases c with
  | running r =>
    rcases h with hinit | ⟨hoff, hfollows⟩
    · exact Or.inl hinit
    · exact Or.inr ⟨hoff, hfollows.synced, hfollows.built⟩
  | returned result =>
    cases result with
    | error e => trivial
    | ok out => exact h

/-- One request that meets the condition. -/
theorem sound_step {types : ℕ → UInt32} {s s' : Shared} {e : Event}
    (h : ∀ i, Sound s (types i) (s.call i)) (he : Undisturbed types s e)
    (hstep : s.step types e = some s') (i : ℕ) : Sound s' (types i) (s'.call i) := by
  have hset : ∀ {t : Shared} {k c}, (∀ i, Sound t (types i) (t.call i)) → Sound t (types k) c →
      Sound (t.setCall k c) (types i) ((t.setCall k c).call i) := by
    intro t k c ht hc
    by_cases hik : i = k
    · rw [hik, Shared.setCall_call_self]
      exact hc.setCall k c
    · rw [Shared.setCall_call_of_ne hik]
      exact (ht i).setCall k c
  -- serving a request leaves the others where they are
  have hserve : ∀ {type off built},
      (off = 0 → Midway types s type → built = s.blob type) →
      ∀ i, Sound (s.serve type off built) (types i) (s.call i) := by
    intro type off built hcond j
    refine (h j).serve fun r hrunning hmid htype hoff => ?_
    exact hcond hoff ⟨j, r, htype, hrunning, hmid⟩
  cases served_of_step hstep with
  | @answered k built r hcall =>
    refine hset (hserve (he r hcall)) ?_
    have hown := h k
    rw [hcall] at hown
    exact (Follows.of_request hown built).pass
  | failed hcall => exact hset h trivial
  | late => exact hserve he i

/-! ## Every run -/

/-- In every run in which nobody is disturbed, a reader that finishes without an error has
a listing that the daemon built, and all of it. -/
theorem listings_whole {types : ℕ → UInt32} {es : List Event} {s : Shared}
    (hrun : run (Shared.step types) opening es = some s)
    (hcond : ∀ bs e t, bs ++ [e] <+: es → run (Shared.step types) opening bs = some t →
      Undisturbed types t e) {i : ℕ} {out : List UInt8}
    (hout : s.call i = .returned (.ok out)) :
    ∃ built, (types i, built) ∈ s.builds ∧ out = text built := by
  have hsound : ∀ i, Sound s (types i) (s.call i) := by
    refine run_invariant_of (I := fun s => ∀ i, Sound s (types i) (s.call i))
      (C := Undisturbed types) ?_ ?_ hcond hrun
    · intro i
      exact Or.inl rfl
    · intro t e t' ht he hstep
      exact sound_step ht he hstep
  have hreader := hsound i
  rw [hout] at hreader
  exact hreader

/-- Two readers of one listing: the second makes its first request while the first one is
midway. -/
def inTurn (first second : Option (List UInt8)) : List Event :=
  [.answered 0 first, .answered 1 second, .answered 0 none]

/-- A listing of one full piece and one byte. -/
def twoPieces (byte : UInt8) : Option (List UInt8) := some (List.replicate 2049 byte)

/-- The first reader has its first piece. -/
theorem run_firstPiece (byte : UInt8) :
    run (Shared.step fun _ => 1) opening [.answered 0 (twoPieces byte)] =
      some ((opening.serve 1 0 (twoPieces byte)).setCall 0
        (.running ⟨2048, List.replicate 2048 byte⟩)) := by
  simp [-List.reduceReplicate, run, Shared.step, opening, serveListing, blobSlice, blobPass,
    twoPieces, procfsCtlMaxpayload]

/-- It gets its second piece from what was built for the other. -/
theorem run_inTurn (byte byte' : UInt8) :
    ∃ s, run (Shared.step fun _ => 1) opening (inTurn (twoPieces byte) (twoPieces byte')) =
        some s ∧ s.call 0 = .returned (.ok (List.replicate 2048 byte ++ [byte'])) ∧
      s.builds = [(1, twoPieces byte), (1, twoPieces byte')] := by
  simp [-List.reduceReplicate, run, inTurn, Shared.step, opening, serveListing, blobSlice, blobPass,
    twoPieces, procfsCtlMaxpayload, Shared.serve, Shared.setCall]

theorem inTurn_undisturbed {byte : UInt8} {bs : List Event} {e : Event} {t : Shared}
    (hpre : bs ++ [e] <+: inTurn (twoPieces byte) (twoPieces byte))
    (hrun : run (Shared.step fun _ => 1) opening bs = some t) :
    Undisturbed (fun _ => 1) t e := by
  rcases concat_isPrefix hpre with ⟨n, hn, rfl⟩
  rcases n with _ | _ | _ | n
  · -- nobody is midway
    cases hn
    cases hrun
    rintro r - - ⟨j, r', -, hrunning, hoff⟩
    cases hrunning
    exact absurd rfl hoff
  · cases hn
    intro r _ _ _
    have hbefore := (run_firstPiece byte).symm.trans hrun
    cases hbefore
    exact (Shared.serve_blob_self opening 1 0 (twoPieces byte)).symm
  · -- the first reader is past the beginning
    cases hn
    intro r hcall hoff
    rcases run_cons.mp hrun with ⟨u, hfirst, hsecond⟩
    rcases run_cons.mp hsecond with ⟨t', hstep, hend⟩
    cases hend
    have hu : u.call 0 = .running ⟨2048, List.replicate 2048 byte⟩ := by
      have hbefore := (run_firstPiece byte).symm.trans (run_cons.mpr ⟨u, hfirst, rfl⟩)
      cases hbefore
      exact Shared.setCall_call_self _ 0 _
    have hkept : t.call 0 = u.call 0 := by
      cases served_of_step hstep with
      | answered => exact Shared.setCall_call_of_ne (by decide) _ _
    rw [hkept, hu] at hcall
    cases hcall
    exact absurd hoff (Nat.succ_ne_zero 2047)
  · cases hn

theorem listings_whole_inTurn :
    ∃ s out, run (Shared.step fun _ => 1) opening (inTurn (twoPieces 97) (twoPieces 97)) = some s ∧
      s.call 0 = .returned (.ok out) ∧ ∃ built, (1, built) ∈ s.builds ∧ out = text built := by
  rcases run_inTurn 97 97 with ⟨s, hrun, hcall, -⟩
  exact ⟨s, _, hrun, hcall, listings_whole hrun (fun _ _ _ => inTurn_undisturbed) hcall⟩

/-- The first reader ends up with parts of two listings. -/
theorem listing_mixed :
    ∃ s out, run (Shared.step fun _ => 1) opening (inTurn (twoPieces 97) (twoPieces 98)) = some s ∧
      s.call 0 = .returned (.ok out) ∧ ¬ ∃ built, (1, built) ∈ s.builds ∧ out = text built := by
  rcases run_inTurn 97 98 with ⟨s, hrun, hcall, hbuilds⟩
  refine ⟨s, _, hrun, hcall, ?_⟩
  rintro ⟨built, hmem, hout⟩
  have hboth : 97 ∈ text built ∧ 98 ∈ text built := by
    rw [← hout]
    simp [-List.reduceReplicate]
  rw [hbuilds] at hmem
  simp only [List.mem_cons, Prod.mk.injEq, true_and, List.not_mem_nil, or_false] at hmem
  -- the bytes of a listing that was built are all the same
  rcases hmem with rfl | rfl
  · have hbyte := List.eq_of_mem_replicate hboth.2
    exact absurd hbyte (by decide)
  · have hbyte := List.eq_of_mem_replicate hboth.1
    exact absurd hbyte (by decide)

end ProcFS.Transfer
