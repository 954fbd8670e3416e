import ProcFS.Ctl
import ProcFS.Lib.Bytes

/-!
# ProcFS.Daemon — the service loop of the daemon

`main` of the daemon connects to the control socket and then receives, for ever. A request in full
is answered, an interrupted `recv` is tried again, and after an error the daemon connects anew.

The loop is given what its `recv` calls return, and makes a trace of what the daemon does with its
sockets. A `recv` that returns 0 bytes is taken for a packet that is too short, so the daemon does
not reconnect after the other side has gone away in that manner.

* `serveStep_cases`: the three kinds of rounds.
* `answersEach_serve`: the rounds of the loop answer every request.
* `main_serves_iff`: the loop does what it should as long as no `recv` returns 0 bytes.
-/

namespace ProcFS.Daemon

open Ctl (CtlReq CtlResp procfsCtlMagic procfsCtlNamemax)
open Lib (fieldAt untilNul)

/-! ## What the daemon receives -/

/-- `sizeof(struct procfs_ctl_req)`. -/
def sizeofCtlReq : ℕ := 24 + procfsCtlNamemax

/-- The bytes that a `recv` has stored in `rbuf`. -/
structure RecvBuf where
  bytes : List UInt8
  length_le : bytes.length ≤ sizeofCtlReq

/-- What a `recv` returns: -1 and an `errno`, or as many bytes as it has stored. -/
inductive RecvOutcome where
  | failed (errno : Int32)
  | received (rbuf : RecvBuf)

def eintr : Int32 := 4

def reqOf (rbuf : RecvBuf) : CtlReq where
  magic := UInt32.ofNat (fieldAt 4 0 rbuf.bytes)
  seq := UInt32.ofNat (fieldAt 4 4 rbuf.bytes)
  type := UInt32.ofNat (fieldAt 4 8 rbuf.bytes)
  pid := (UInt32.ofNat (fieldAt 4 12 rbuf.bytes)).toInt32
  arg := UInt64.ofNat (fieldAt 8 16 rbuf.bytes)
  name := untilNul (rbuf.bytes.drop 24)

/-! ## What the daemon does -/

/-- An action of the daemon on its sockets; `connect` is the end of `wait_connect`. -/
inductive Event where
  | recv (fd : ℕ) (outcome : RecvOutcome)
  | send (fd : ℕ) (resp : CtlResp) (payload : List UInt8)
  | close (fd : ℕ)
  | connect (fd : ℕ)
  | applyPersistedLinuxMode

/-- What a branch of the `switch` leaves: the error, and the payload. -/
structure Answer where
  error : Int32
  payload : List UInt8

/-- What the daemon finds out from the system, which may be something else every time: the answer
to a request, and the socket that `wait_connect` returns. The rounds are numbered. -/
structure World where
  answer : ℕ → CtlReq → Answer
  waitConnect : ℕ → ℕ

variable (w : World)

def respTo (req : CtlReq) (a : Answer) : CtlResp where
  magic := procfsCtlMagic
  seq := req.seq
  error := a.error
  len := UInt32.ofNat a.payload.length

/-- Round `i` of the loop, on the socket `fd`: the socket after it, and what the daemon did. -/
def serveStep (i fd : ℕ) (outcome : RecvOutcome) : ℕ × List Event :=
  match outcome with
  | .failed errno =>
    if errno = eintr then (fd, [.recv fd outcome])
    else
      let fd' := w.waitConnect (i + 1)
      (fd', [.recv fd outcome, .close fd, .connect fd', .applyPersistedLinuxMode])
  | .received rbuf =>
    if rbuf.bytes.length < sizeofCtlReq then (fd, [.recv fd outcome])
    else
      let req := reqOf rbuf
      if req.magic ≠ procfsCtlMagic then (fd, [.recv fd outcome])
      else
        let a := w.answer i req
        (fd, [.recv fd outcome, .send fd (respTo req a) a.payload])

/-- The next `n` rounds, the first of which is round `i`. -/
def serve (outcomes : ℕ → RecvOutcome) : ℕ → ℕ → ℕ → List Event
  | 0, _, _ => []
  | n + 1, i, fd =>
    let r := serveStep w i fd (outcomes i)
    r.2 ++ serve outcomes n (i + 1) r.1

/-- `main`, up to the end of round `n`. -/
def main (outcomes : ℕ → RecvOutcome) (n : ℕ) : List Event :=
  [.connect (w.waitConnect 0), .applyPersistedLinuxMode] ++
    serve w outcomes n 0 (w.waitConnect 0)

/-! ## What the daemon should do -/

/-- The outcome means that the connection is gone. -/
def RecvOutcome.Gone : RecvOutcome → Prop
  | .failed errno => errno ≠ eintr
  | .received rbuf => rbuf.bytes = []

/-- A full and well-formed request. -/
def RecvOutcome.request? : RecvOutcome → Option CtlReq
  | .failed _ => none
  | .received rbuf =>
    if rbuf.bytes.length = sizeofCtlReq ∧ (reqOf rbuf).magic = procfsCtlMagic then
      some (reqOf rbuf)
    else none

def requests (es : List Event) : List CtlReq :=
  es.filterMap fun
    | .recv _ outcome => outcome.request?
    | _ => none

def replies (es : List Event) : List CtlResp :=
  es.filterMap fun
    | .send _ resp _ => some resp
    | _ => none

/-- Every request has one reply, which has its number; they come in the order of the requests, and
there are no others. -/
def AnswersEach (es : List Event) : Prop :=
  List.Forall₂ (fun req resp => resp.magic = procfsCtlMagic ∧ resp.seq = req.seq)
    (requests es) (replies es)

/-- The daemon connects before it receives. -/
def ConnectsFirst : List Event → Prop
  | [] => True
  | .connect _ :: _ => True
  | .recv _ _ :: _ => False
  | _ :: es => ConnectsFirst es

/-- Once the connection is gone, the daemon connects before it receives again. -/
def Reconnects : List Event → Prop
  | [] => True
  | .recv _ outcome :: es => (outcome.Gone → ConnectsFirst es) ∧ Reconnects es
  | _ :: es => Reconnects es

/-! ## A round -/

section Round

variable {w} {i fd : ℕ} {outcome : RecvOutcome}

theorem request?_eq_some_iff {rbuf : RecvBuf} {req : CtlReq} :
    (RecvOutcome.received rbuf).request? = some req ↔
      (rbuf.bytes.length = sizeofCtlReq ∧ (reqOf rbuf).magic = procfsCtlMagic) ∧
        reqOf rbuf = req := by
  rw [RecvOutcome.request?, Option.ite_none_right_eq_some, Option.some.injEq]

/-- A request is answered. -/
theorem serveStep_of_request {req : CtlReq} (h : outcome.request? = some req) :
    serveStep w i fd outcome =
      (fd, [.recv fd outcome, .send fd (respTo req (w.answer i req))
        (w.answer i req).payload]) := by
  cases outcome with
  | failed errno => cases h
  | received rbuf =>
    obtain ⟨⟨hlen, hmagic⟩, rfl⟩ := request?_eq_some_iff.mp h
    simp only [serveStep, hlen, hmagic]
    rfl

/-- After an error the daemon connects anew. -/
theorem serveStep_of_error {errno : Int32} (h : errno ≠ eintr) :
    serveStep w i fd (.failed errno) =
      (w.waitConnect (i + 1), [.recv fd (.failed errno), .close fd,
        .connect (w.waitConnect (i + 1)), .applyPersistedLinuxMode]) := by
  simp only [serveStep, if_neg h]

/-- After anything else it receives again. -/
theorem serveStep_of_other (hreq : outcome.request? = none)
    (herr : ∀ errno, outcome = .failed errno → errno = eintr) :
    serveStep w i fd outcome = (fd, [.recv fd outcome]) := by
  cases outcome with
  | failed errno => simp only [serveStep, if_pos (herr errno rfl)]
  | received rbuf =>
    simp only [serveStep]
    split_ifs with hshort hmagic
    · rfl
    · rfl
    · -- otherwise it would be a request
      have hlen : rbuf.bytes.length = sizeofCtlReq :=
        Nat.le_antisymm rbuf.length_le (Nat.not_lt.mp hshort)
      have hsome : (RecvOutcome.received rbuf).request? = some (reqOf rbuf) :=
        request?_eq_some_iff.mpr ⟨⟨hlen, not_not.mp hmagic⟩, rfl⟩
      rw [hsome] at hreq
      cases hreq

/-- The three kinds of rounds. -/
theorem serveStep_cases (w : World) (i fd : ℕ) (outcome : RecvOutcome) :
    (∃ req, outcome.request? = some req ∧ serveStep w i fd outcome =
      (fd, [.recv fd outcome, .send fd (respTo req (w.answer i req)) (w.answer i req).payload])) ∨
    (∃ errno, errno ≠ eintr ∧ outcome = .failed errno ∧ serveStep w i fd outcome =
      (w.waitConnect (i + 1), [.recv fd outcome, .close fd, .connect (w.waitConnect (i + 1)),
        .applyPersistedLinuxMode])) ∨
    (outcome.request? = none ∧ (∀ errno, outcome = .failed errno → errno = eintr) ∧
      serveStep w i fd outcome = (fd, [.recv fd outcome])) := by
  cases hreq : outcome.request? with
  | some req => exact Or.inl ⟨req, rfl, serveStep_of_request hreq⟩
  | none =>
    by_cases herr : ∀ errno, outcome = .failed errno → errno = eintr
    · exact Or.inr (Or.inr ⟨rfl, herr, serveStep_of_other hreq herr⟩)
    · push Not at herr
      obtain ⟨errno, rfl, hne⟩ := herr
      exact Or.inr (Or.inl ⟨errno, hne, rfl, serveStep_of_error hne⟩)

end Round

/-! ## The loop -/

section Loop

variable {w} {outcomes : ℕ → RecvOutcome}

/-- The rounds of the loop answer every request. -/
theorem answersEach_serve (n i fd : ℕ) : AnswersEach (serve w outcomes n i fd) := by
  induction n generalizing i fd with
  | zero => exact .nil
  | succ n ih =>
    rw [serve]
    -- a request is answered, after an error the daemon reconnects, and anything else is passed over
    rcases serveStep_cases w i fd (outcomes i) with
      ⟨req, hreq, hstep⟩ | ⟨errno, -, hfailed, hstep⟩ | ⟨hreq, -, hstep⟩
    · rw [hstep]
      have hrest := ih (i + 1) fd
      simp only [AnswersEach, requests, replies, List.cons_append, List.nil_append,
        List.filterMap_cons, hreq]
      exact .cons ⟨rfl, rfl⟩ hrest
    · rw [hstep, hfailed]
      exact ih (i + 1) (w.waitConnect (i + 1))
    · rw [hstep]
      have hrest := ih (i + 1) fd
      simp only [AnswersEach, requests, replies, List.cons_append, List.nil_append,
        List.filterMap_cons, hreq]
      exact hrest

/-- What the loop does after a round, it does right as long as it does right with the round. -/
theorem reconnects_of_serve_succ {n i fd : ℕ} (h : Reconnects (serve w outcomes (n + 1) i fd)) :
    Reconnects (serve w outcomes n (i + 1) (serveStep w i fd (outcomes i)).1) := by
  rw [serve] at h
  rcases serveStep_cases w i fd (outcomes i) with
    ⟨req, -, hstep⟩ | ⟨errno, -, -, hstep⟩ | ⟨-, -, hstep⟩
  · rw [hstep] at h ⊢
    exact h.2
  · rw [hstep] at h ⊢
    exact h.2
  · rw [hstep] at h ⊢
    exact h.2

/-- The connection is there if `recv` returns some bytes or was interrupted. -/
theorem not_gone {outcome : RecvOutcome}
    (hbytes : ∀ rbuf, outcome = .received rbuf → rbuf.bytes ≠ [])
    (herr : ∀ errno, outcome = .failed errno → errno = eintr) : ¬ outcome.Gone := by
  intro hgone
  cases outcome with
  | failed errno => exact hgone (herr errno rfl)
  | received rbuf => exact hbytes rbuf rfl hgone

/-- The loop reconnects whenever it has to if no `recv` returns 0 bytes. -/
theorem reconnects_serve (h : ∀ i rbuf, outcomes i = .received rbuf → rbuf.bytes ≠ [])
    (n i fd : ℕ) : Reconnects (serve w outcomes n i fd) := by
  induction n generalizing i fd with
  | zero => exact trivial
  | succ n ih =>
    rw [serve]
    rcases serveStep_cases w i fd (outcomes i) with
      ⟨req, hreq, hstep⟩ | ⟨errno, -, hfailed, hstep⟩ | ⟨-, herr, hstep⟩
    · -- a request did arrive, so `recv` has not failed
      have herr : ∀ errno, outcomes i = .failed errno → errno = eintr := by
        intro errno hfailed
        rw [hfailed] at hreq
        cases hreq
      rw [hstep]
      exact ⟨fun hgone => absurd hgone (not_gone (h i) herr), ih (i + 1) fd⟩
    · rw [hstep]
      exact ⟨fun _ => trivial, ih (i + 1) (w.waitConnect (i + 1))⟩
    · rw [hstep]
      exact ⟨fun hgone => absurd hgone (not_gone (h i) herr), ih (i + 1) fd⟩

/-- A round that gets 0 bytes is followed by a `recv` on the same socket. -/
theorem not_reconnects_serve {rbuf : RecvBuf} {i : ℕ} (h : outcomes i = .received rbuf)
    (hempty : rbuf.bytes = []) (n fd : ℕ) : ¬ Reconnects (serve w outcomes (n + 2) i fd) := by
  have hshort : rbuf.bytes.length < sizeofCtlReq := by
    rw [hempty]
    decide
  have hstep : serveStep w i fd (outcomes i) = (fd, [.recv fd (outcomes i)]) := by
    rw [h]
    simp only [serveStep, if_pos hshort]
  rw [serve, hstep]
  rintro ⟨hfirst, -⟩
  have hgone : (outcomes i).Gone := by
    rw [h]
    exact hempty
  have hconnects := hfirst hgone
  -- but whatever the next round is, it begins with a `recv`
  rw [serve] at hconnects
  rcases serveStep_cases w (i + 1) fd (outcomes (i + 1)) with
    ⟨req, -, hnext⟩ | ⟨errno, -, -, hnext⟩ | ⟨-, -, hnext⟩
  all_goals
    rw [hnext] at hconnects
    exact hconnects

/-- No matter how many rounds come before it. -/
theorem not_reconnects_serve_of_le {rbuf : RecvBuf} {i j : ℕ}
    (h : outcomes (j + i) = .received rbuf) (hempty : rbuf.bytes = []) (fd : ℕ) :
    ¬ Reconnects (serve w outcomes (i + 2) j fd) := by
  induction i generalizing j fd with
  | zero => exact not_reconnects_serve h hempty 0 fd
  | succ i ih =>
    intro hre
    refine ih ?_ _ (reconnects_of_serve_succ hre)
    rw [← h, Nat.add_assoc, Nat.add_comm 1 i]

end Loop

/-- Whatever the `recv` calls return, every full and well-formed request is answered once and in
turn, with its number. The daemon also reconnects before it receives again, whenever the connection
is gone, if and only if no `recv` returns 0 bytes. -/
theorem main_serves_iff (outcomes : ℕ → RecvOutcome) :
    (∀ n, AnswersEach (main w outcomes n) ∧ Reconnects (main w outcomes n)) ↔
      ∀ i rbuf, outcomes i = .received rbuf → rbuf.bytes ≠ [] := by
  constructor
  · intro h i rbuf houtcome hempty
    have hre : Reconnects (serve w outcomes (i + 2) 0 (w.waitConnect 0)) := (h (i + 2)).2
    refine not_reconnects_serve_of_le ?_ hempty _ hre
    rw [Nat.zero_add]
    exact houtcome
  · exact fun h n => ⟨answersEach_serve n 0 (w.waitConnect 0), reconnects_serve h n 0 _⟩

/-- A daemon whose other side has closed the connection: every `recv` returns 0 bytes. -/
def hungUp (_ : ℕ) : RecvOutcome := .received ⟨[], Nat.zero_le _⟩

/-- It goes on receiving on the socket it has. -/
theorem main_hungUp :
    ¬ ∀ n, AnswersEach (main ⟨fun _ _ => ⟨0, []⟩, fun _ => 3⟩ hungUp n) ∧
      Reconnects (main ⟨fun _ _ => ⟨0, []⟩, fun _ => 3⟩ hungUp n) := by
  intro h
  exact (h 2).2.1 rfl

end ProcFS.Daemon
