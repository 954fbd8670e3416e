import ProcFS.Ctl
import ProcFS.Lib.Chunk

/-!
# ProcFS.Transfer — replies that do not fit into one packet

A packet has room for 2048 bytes. Longer replies are fetched in pieces: each request
names the offset, the daemon answers with the bytes found there, and a piece that is
not full is the last one. `procfs_ctl_request_blob` collects the pieces of a listing in
an sbuf; `procfs_fetch_procargs` collects the argument region of a process in a buffer
that it doubles, up to 256 KB. A store outside an allocation is a `none` here, and so
is a loop that has not come to its end after the passes it was given.

* `blobLoop_steady`, `fetchLoop_filled`: what each loop ends with, from any point on.
* `transfer_lossless`: both transfers are whole.
-/

namespace ProcFS.Transfer

open Ctl (Result procfsCtlMaxpayload)
open Lib (chunk Reader)

/-! ## The daemon -/

/-- The text of a blob. One that could not be built is NULL, with length 0. -/
def text (blob : Option (List UInt8)) : List UInt8 := blob.getD []

def blobSlice (blob : Option (List UInt8)) (off : ℕ) : List UInt8 :=
  match blob with
  | some bytes =>
    if off < bytes.length then
      (bytes.drop off).take (min (bytes.length - off) procfsCtlMaxpayload)
    else []
  | none => []

/-- A request for a listing in the daemon's main loop: the listing is built anew at
offset 0, and otherwise what was built last is served. -/
def serveListing (cached built : Option (List UInt8)) (off : ℕ) :
    Option (List UInt8) × List UInt8 :=
  let blob := if off = 0 then built else cached
  (blob, blobSlice blob off)

def eperm : Int32 := 1

def eio : Int32 := 5

def enomem : Int32 := 12

def einval : Int32 := 22

def enotsup : Int32 := 45

/-- `procfsd_handle_procargs`: whether its buffer was allocated, what the `sysctl` gave,
and the offset of the request. -/
def procfsdHandleProcargs (malloc : Bool) (sysctl : Except Int32 (List UInt8)) (off : ℕ) :
    Result :=
  if malloc then
    match sysctl with
    | .error errno => .error (if errno ≠ 0 then errno else einval)
    | .ok buf =>
      if off < buf.length then
        .ok ((buf.drop off).take (min (buf.length - off) procfsCtlMaxpayload))
      else .ok []
  else .error enomem

/-- The bytes that both send. -/
theorem slice_eq_chunk (bytes : List UInt8) (off : ℕ) :
    (if off < bytes.length then
      (bytes.drop off).take (min (bytes.length - off) procfsCtlMaxpayload) else []) =
      chunk bytes off procfsCtlMaxpayload := by
  split
  · rw [chunk, ← List.length_drop, Nat.min_comm, ← List.take_eq_take_min]
  · rename_i hoff
    rw [chunk, List.drop_eq_nil_of_le (Nat.le_of_not_lt hoff), List.take_nil]

theorem blobSlice_eq_chunk (blob : Option (List UInt8)) (off : ℕ) :
    blobSlice blob off = chunk (text blob) off procfsCtlMaxpayload := by
  cases blob with
  | some bytes => exact slice_eq_chunk bytes off
  | none => simp [blobSlice, text, chunk]

theorem handleProcargs_eq_chunk (region : List UInt8) (off : ℕ) :
    procfsdHandleProcargs true (.ok region) off = .ok (chunk region off procfsCtlMaxpayload) := by
  rw [← slice_eq_chunk]
  simp only [procfsdHandleProcargs, if_true]
  split <;> rfl

/-! ## A listing -/

/-- A call of `procfs_ctl_request_blob`: the offset and the sbuf, or what it returned. -/
inductive BlobCall where
  | running (r : Reader UInt8)
  | returned (result : Result)

/-- One pass of its loop, with the answer to the request. -/
def blobPass (r : Reader UInt8) (answer : Result) : BlobCall :=
  match answer with
  | .error e => .returned (.error e)
  | .ok got =>
    let r' : Reader UInt8 := ⟨r.off + got.length, r.got ++ got⟩
    if got.length < procfsCtlMaxpayload then .returned (.ok r'.got) else .running r'

/-- The loop, for at most `fuel` passes. `serve` answers the requests. -/
def blobLoop {σ : Type} (serve : σ → ℕ → σ × Result) : ℕ → σ → Reader UInt8 → Option Result
  | 0, _, _ => none
  | fuel + 1, s, r =>
    match blobPass r (serve s r.off).2 with
    | .returned result => some result
    | .running r' => blobLoop serve fuel (serve s r.off).1 r'

def procfsCtlRequestBlob {σ : Type} (serve : σ → ℕ → σ × Result) (fuel : ℕ) (s : σ) :
    Option Result :=
  blobLoop serve fuel s ⟨0, []⟩

/-- A pass against a source that holds `xs`. -/
theorem blobPass_chunk (xs : List UInt8) (r : Reader UInt8) :
    blobPass r (.ok (chunk xs r.off procfsCtlMaxpayload)) =
      if (chunk xs r.off procfsCtlMaxpayload).length < procfsCtlMaxpayload then
        .returned (.ok (r.read xs procfsCtlMaxpayload).got)
      else .running (r.read xs procfsCtlMaxpayload) := rfl

/-- The daemon, while the data for the listing does not change. -/
def steadyListing (built : Option (List UInt8)) (cached : Option (List UInt8)) (off : ℕ) :
    Option (List UInt8) × Result :=
  ((serveListing cached built off).1, .ok (serveListing cached built off).2)

theorem steadyListing_eq {built cached : Option (List UInt8)} {off : ℕ}
    (h : off = 0 ∨ cached = built) :
    steadyListing built cached off =
      (built, .ok (chunk (text built) off procfsCtlMaxpayload)) := by
  have hblob : (if off = 0 then built else cached) = built := by
    rcases h with hoff | hcached
    · exact if_pos hoff
    · rw [hcached, ite_self]
  rw [steadyListing, serveListing, hblob, blobSlice_eq_chunk]

theorem blobLoop_steady {built cached : Option (List UInt8)} {r : Reader UInt8} {fuel : ℕ}
    (hr : r.Synced (text built)) (hcached : r.off = 0 ∨ cached = built)
    (hfuel : ((text built).length - r.off) / procfsCtlMaxpayload < fuel) :
    blobLoop (steadyListing built) fuel cached r = some (.ok (text built)) := by
  induction fuel generalizing cached r with
  | zero => exact absurd hfuel (Nat.not_lt_zero _)
  | succ fuel ih =>
    simp only [blobLoop, steadyListing_eq hcached, blobPass_chunk]
    by_cases hshort : (chunk (text built) r.off procfsCtlMaxpayload).length < procfsCtlMaxpayload
    · rw [if_pos hshort]
      exact congrArg (fun bytes => some (Except.ok bytes)) (hr.got_eq_of_short hshort)
    · rw [if_neg hshort]
      -- a full piece: the rest is shorter by as much
      refine ih (hr.read procfsCtlMaxpayload) (Or.inr rfl) ?_
      show ((text built).length - (r.off + (chunk (text built) r.off procfsCtlMaxpayload).length)) /
        procfsCtlMaxpayload < fuel
      have hmax : procfsCtlMaxpayload = 2048 := rfl
      rw [Lib.length_chunk, hmax] at hshort ⊢
      rw [hmax] at hfuel
      omega

/-! ## The argument region of a process -/

def procfsCmdlineMax : ℕ := 256 * 1024

/-- `malloc`: an allocation of that size, with anything in it, or NULL. -/
structure Allocator where
  malloc : ℕ → Option (List UInt8)
  length_eq : ∀ n buf, malloc n = some buf → buf.length = n

/-- `memcpy` of `n` bytes to offset `off` of an allocation, if both sides are large
enough. -/
def memcpy (dst : List UInt8) (off : ℕ) (src : List UInt8) (n : ℕ) : Option (List UInt8) :=
  if n ≤ src.length ∧ off + n ≤ dst.length then
    some (dst.take off ++ src.take n ++ dst.drop (off + n))
  else none

/-- What the top of the loop of `procfs_fetch_procargs` comes to. -/
inductive Room where
  /-- The limit is reached. -/
  | limit
  | noMemory
  | fault
  /-- There is room for another payload. -/
  | room (buf : List UInt8)

/-- The top of the loop: the buffer is replaced by one of twice its size if there is no
room for another payload. The size of the allocation is `cap`. -/
def makeRoom (mem : Allocator) (buf : List UInt8) (total : ℕ) : Room :=
  let cap := buf.length
  if cap < total + procfsCtlMaxpayload then
    let ncap := min (cap * 2) procfsCmdlineMax
    if ncap ≤ total then .limit
    else
      match mem.malloc ncap with
      | none => .noMemory
      | some nbuf =>
        match memcpy nbuf 0 buf total with
        | some nbuf => .room nbuf
        | none => .fault
  else .room buf

/-- The end of `procfs_fetch_procargs`. -/
def fetched (buf : List UInt8) (total : ℕ) : Result :=
  if total = 0 then .error eio else .ok (buf.take total)

/-- The loop of `procfs_fetch_procargs`, for at most `fuel` passes. The request stores its
answer at `buf + total`. -/
def fetchLoop (mem : Allocator) (request : ℕ → Result) : ℕ → List UInt8 → ℕ → Option Result
  | 0, _, _ => none
  | fuel + 1, buf, total =>
    match makeRoom mem buf total with
    | .limit => some (fetched buf total)
    | .noMemory => some (.error enomem)
    | .fault => none
    | .room buf =>
      match request total with
      | .error rc =>
        if total = 0 then
          some (.error (if rc = Ctl.enotconn ∨ rc = Ctl.etimedout then enotsup else rc))
        else some (fetched buf total)
      | .ok got =>
        match memcpy buf total got got.length with
        | none => none
        | some buf =>
          if got.length < procfsCtlMaxpayload then some (fetched buf (total + got.length))
          else fetchLoop mem request fuel buf (total + got.length)

def procfsFetchProcargs (mem : Allocator) (request : ℕ → Result) (fuel : ℕ) : Option Result :=
  match mem.malloc procfsCtlMaxpayload with
  | none => some (.error enomem)
  | some buf => fetchLoop mem request fuel buf 0

/-- The buffer holds the first `total` bytes of the region, and sizes are whole payloads. -/
structure Filled (xs buf : List UInt8) (total : ℕ) : Prop where
  pieces : procfsCtlMaxpayload ∣ total
  cap : procfsCtlMaxpayload ∣ buf.length
  cap_le : buf.length ≤ procfsCmdlineMax
  total_le : total ≤ buf.length
  got : total ≤ xs.length
  bytes : buf.take total = xs.take total

theorem memcpy_of_le {dst src : List UInt8} {off n : ℕ} (hsrc : n ≤ src.length)
    (hdst : off + n ≤ dst.length) :
    memcpy dst off src n = some (dst.take off ++ src.take n ++ dst.drop (off + n)) :=
  if_pos ⟨hsrc, hdst⟩

theorem length_memcpy {dst src : List UInt8} {off n : ℕ} (hsrc : n ≤ src.length)
    (hdst : off + n ≤ dst.length) :
    (dst.take off ++ src.take n ++ dst.drop (off + n)).length = dst.length := by
  simp only [List.length_append, List.length_take, List.length_drop]
  omega

theorem take_memcpy {dst src : List UInt8} {off n : ℕ} (hsrc : n ≤ src.length)
    (hdst : off + n ≤ dst.length) :
    (dst.take off ++ src.take n ++ dst.drop (off + n)).take (off + n) =
      dst.take off ++ src.take n := by
  apply List.take_left'
  simp only [List.length_append, List.length_take]
  omega

/-- At the top of the loop there is room, or the limit is reached exactly. -/
theorem makeRoom_filled {mem : Allocator} (hmem : ∀ n, (mem.malloc n).isSome = true)
    {xs buf : List UInt8} {total : ℕ} (h : Filled xs buf total) (hcap : 0 < buf.length) :
    makeRoom mem buf total = .limit ∧ total = procfsCmdlineMax ∨
      ∃ buf', makeRoom mem buf total = .room buf' ∧ Filled xs buf' total ∧
        total + procfsCtlMaxpayload ≤ buf'.length := by
  have hmax : procfsCtlMaxpayload = 2048 := rfl
  have hlimit : procfsCmdlineMax = 262144 := rfl
  rcases h.pieces with ⟨k, hk⟩
  rcases h.cap with ⟨c, hc⟩
  rw [hmax] at hk hc
  have hle := h.total_le
  have hcap_le := h.cap_le
  unfold makeRoom
  by_cases hfull : buf.length < total + procfsCtlMaxpayload
  · simp only [if_pos hfull]
    -- whole payloads: the buffer is full to the last byte
    have htotal : total = buf.length := by
      omega
    by_cases hstop : min (buf.length * 2) procfsCmdlineMax ≤ total
    · rw [if_pos hstop]
      exact Or.inl ⟨rfl, by omega⟩
    · rw [if_neg hstop]
      rcases Option.isSome_iff_exists.mp (hmem (min (buf.length * 2) procfsCmdlineMax)) with
        ⟨nbuf, hnbuf⟩
      have hlen := mem.length_eq _ nbuf hnbuf
      have hfits : 0 + total ≤ nbuf.length := by omega
      simp only [hnbuf, memcpy_of_le hle hfits]
      have hnew := length_memcpy hle hfits
      refine Or.inr ⟨_, rfl, ⟨h.pieces, ?_, ?_, ?_, h.got, ?_⟩, ?_⟩
      · rw [hnew, hlen, hmax, hlimit]
        omega
      · rw [hnew, hlen]
        exact Nat.min_le_right _ _
      · rw [hnew]
        omega
      · have htake := take_memcpy hle hfits
        rw [Nat.zero_add] at htake
        rw [Nat.zero_add, htake, List.take_zero, List.nil_append]
        exact h.bytes
      · rw [hnew, hlen]
        omega
  · rw [if_neg hfull]
    exact Or.inr ⟨buf, rfl, h, Nat.le_of_not_lt hfull⟩

/-- What `procfs_fetch_procargs` is for: the region up to the limit. -/
def firstBytes (region : List UInt8) : Result :=
  if region = [] then .error eio else .ok (region.take procfsCmdlineMax)

/-- Another piece is stored behind the others. -/
theorem Filled.store {xs buf : List UInt8} {total : ℕ} (h : Filled xs buf total)
    (hroom : total + procfsCtlMaxpayload ≤ buf.length) :
    ∃ buf', memcpy buf total (chunk xs total procfsCtlMaxpayload)
        (chunk xs total procfsCtlMaxpayload).length = some buf' ∧ buf'.length = buf.length ∧
      buf'.take (total + (chunk xs total procfsCtlMaxpayload).length) =
        xs.take (total + (chunk xs total procfsCtlMaxpayload).length) := by
  have hlen := Lib.length_chunk xs total procfsCtlMaxpayload
  have hfits : total + (chunk xs total procfsCtlMaxpayload).length ≤ buf.length := by omega
  refine ⟨_, memcpy_of_le (Nat.le_refl _) hfits, length_memcpy (Nat.le_refl _) hfits, ?_⟩
  rw [take_memcpy (Nat.le_refl _) hfits, List.take_length, h.bytes, Lib.take_append_chunk]

/-- The result, when the buffer holds the whole region. -/
theorem fetched_whole {xs buf : List UInt8} (hcap : buf.length ≤ procfsCmdlineMax)
    (hlen : xs.length ≤ buf.length) (hbytes : buf.take xs.length = xs.take xs.length) :
    fetched buf xs.length = firstBytes xs := by
  unfold fetched firstBytes
  by_cases hempty : xs = []
  · rw [if_pos hempty, if_pos (by rw [hempty]; rfl)]
  · rw [if_neg hempty, if_neg (mt List.length_eq_zero_iff.mp hempty), hbytes, List.take_length,
      List.take_of_length_le (Nat.le_trans hlen hcap)]

/-- The result, when the limit is reached. -/
theorem fetched_limit {xs buf : List UInt8} (h : Filled xs buf procfsCmdlineMax) :
    fetched buf procfsCmdlineMax = firstBytes xs := by
  have hpos : 0 < procfsCmdlineMax := by decide
  have hsome : xs ≠ [] := by
    intro hempty
    have hgot := h.got
    rw [hempty, List.length_nil] at hgot
    omega
  rw [fetched, firstBytes, if_neg hpos.ne', if_neg hsome, h.bytes]

theorem fetchLoop_filled {mem : Allocator} (hmem : ∀ n, (mem.malloc n).isSome = true)
    {xs buf : List UInt8} {total fuel : ℕ} (h : Filled xs buf total) (hcap : 0 < buf.length)
    (hfuel : (procfsCmdlineMax - total) / procfsCtlMaxpayload < fuel) :
    fetchLoop mem (fun off => .ok (chunk xs off procfsCtlMaxpayload)) fuel buf total =
      some (firstBytes xs) := by
  have hmax : procfsCtlMaxpayload = 2048 := rfl
  induction fuel generalizing buf total with
  | zero => exact absurd hfuel (Nat.not_lt_zero _)
  | succ fuel ih =>
    rcases makeRoom_filled hmem h hcap with ⟨hlimit, htotal⟩ | ⟨buf', hroom', hbuf', hspace⟩
    · rw [htotal] at h hlimit ⊢
      simp only [fetchLoop, hlimit, fetched_limit h]
    · rcases hbuf'.store hspace with ⟨buf'', hcopy, hlen'', hbytes⟩
      simp only [fetchLoop, hroom', hcopy]
      have hpiece := Lib.length_chunk xs total procfsCtlMaxpayload
      have hgot := h.got
      have hcap_le := hbuf'.cap_le
      split
      · -- the last piece ends where the region ends
        rename_i hshort
        have hend : total + (chunk xs total procfsCtlMaxpayload).length = xs.length := by omega
        rw [hend] at hbytes ⊢
        exact congrArg some (fetched_whole (by omega) (by omega) hbytes)
      · rename_i hfull
        have hpayload : (chunk xs total procfsCtlMaxpayload).length = procfsCtlMaxpayload := by
          omega
        rw [hpayload] at hbytes ⊢
        refine ih ⟨?_, ?_, ?_, ?_, ?_, hbytes⟩ ?_ ?_
        · exact Nat.dvd_add h.pieces (Nat.dvd_refl _)
        · rw [hlen'']
          exact hbuf'.cap
        · omega
        · omega
        · omega
        · omega
        · rw [hmax] at hfuel hspace ⊢
          omega

/-- Allocations and requests succeed: `procfs_fetch_procargs` returns the region, up to
the limit. -/
theorem fetchProcargs_steady {mem : Allocator} (hmem : ∀ n, (mem.malloc n).isSome = true)
    (region : List UInt8) {fuel : ℕ} (hfuel : procfsCmdlineMax / procfsCtlMaxpayload < fuel) :
    procfsFetchProcargs mem (procfsdHandleProcargs true (.ok region)) fuel =
      some (firstBytes region) := by
  rcases Option.isSome_iff_exists.mp (hmem procfsCtlMaxpayload) with ⟨buf, hbuf⟩
  have hlen := mem.length_eq _ buf hbuf
  -- what the daemon returns for an offset is the piece that begins there
  have hrequest : procfsdHandleProcargs true (.ok region) =
      fun off => .ok (chunk region off procfsCtlMaxpayload) :=
    funext (handleProcargs_eq_chunk region)
  simp only [procfsFetchProcargs, hbuf, hrequest]
  refine fetchLoop_filled hmem ⟨Nat.dvd_zero _, ?_, ?_, Nat.zero_le _, Nat.zero_le _, ?_⟩ ?_ hfuel
  · -- the first buffer has room for one piece, and is empty
    exact ⟨1, by rw [hlen, Nat.mul_one]⟩
  · rw [hlen]
    decide
  · rw [List.take_zero, List.take_zero]
  · rw [hlen]
    decide

/-! ## Both transfers -/

/-- A transfer to one reader is lossless, however long the data is: the loops come to
their end, with exactly the listing and exactly the first bytes of the region. -/
theorem transfer_lossless :
    (∀ (built cached : Option (List UInt8)) (fuel : ℕ),
      (text built).length / procfsCtlMaxpayload < fuel →
      procfsCtlRequestBlob (steadyListing built) fuel cached = some (.ok (text built))) ∧
    (∀ (mem : Allocator) (region : List UInt8) (fuel : ℕ),
      (∀ n, (mem.malloc n).isSome = true) → procfsCmdlineMax / procfsCtlMaxpayload < fuel →
      procfsFetchProcargs mem (procfsdHandleProcargs true (.ok region)) fuel =
        some (if region = [] then .error eio else .ok (region.take procfsCmdlineMax))) := by
  constructor
  · intro built cached fuel hfuel
    exact blobLoop_steady (Lib.Reader.synced_init _) (Or.inl rfl) hfuel
  · intro mem region fuel hmem hfuel
    exact fetchProcargs_steady hmem region hfuel

/-- Allocations that succeed and are full of zeros. -/
def zeroed : Allocator where
  malloc n := some (List.replicate n 0)
  length_eq := by
    intro n buf h
    rw [← Option.some.inj h, List.length_replicate]

/-- A listing that ends where a piece ends, an argument region of two pieces, and an empty one. -/
theorem transfer_lossless_fullPiece :
    procfsCtlRequestBlob (steadyListing (some (List.replicate 2048 7))) 2 none =
        some (.ok (List.replicate 2048 7)) ∧
      procfsFetchProcargs zeroed (procfsdHandleProcargs true (.ok (List.replicate 3000 7))) 129 =
        some (.ok (List.replicate 3000 7)) ∧
      procfsFetchProcargs zeroed (procfsdHandleProcargs true (.ok [])) 129 = some (.error eio) := by
  refine ⟨?_, ?_, ?_⟩
  · refine transfer_lossless.1 (some (List.replicate 2048 7)) none 2 ?_
    rw [text, Option.getD_some, List.length_replicate]
    decide
  · have hfuel : procfsCmdlineMax / procfsCtlMaxpayload < 129 := by decide
    have hlen : (List.replicate 3000 (7 : UInt8)).length ≤ procfsCmdlineMax := by
      rw [List.length_replicate]
      decide
    rw [transfer_lossless.2 zeroed (List.replicate 3000 7) 129 (fun _ => rfl) hfuel,
      if_neg (by simp), List.take_of_length_le hlen]
  · exact transfer_lossless.2 zeroed [] 129 (fun _ => rfl) (by decide)

end ProcFS.Transfer
