import ProcFS.CopyData
import ProcFS.Lib.Stretch
import ProcFS.Node
import ProcFS.Transfer

/-!
# ProcFS.Data.Memory — reading the memory of a process

A read of `/proc/<pid>/mem` takes the file offset for an address. The kernel extension
asks the daemon for 2048 bytes at a time; the daemon reads them page by page and stops
at the first page that it cannot read. The two loops cut the range at different places,
and together compute one thing: the longest run of readable bytes
(`ProcFS.Lib.Stretch`).

* `procfsdHandleMemread_eq`: one reply is the run of readable bytes, cut at the size of a payload.
* `domemLoop_eq`: the rest of a read completes the run.
* `domem_reads_longestRun`: a permitted read returns the longest run.
-/

namespace ProcFS.Data

open Ctl (Result procfsCtlMaxpayload)
open Lib (stretch stretch_add LongestRun)
open Transfer (eio enomem enotsup eperm)

/-! ## The memory of a task -/

/-- The memory of a task: which of its pages can be read, and what is in them. -/
structure Memory where
  vmPageSize : UInt64
  pow_two : ∃ k, vmPageSize.toNat = 2 ^ k
  readable : ℕ → Bool
  byte : ℕ → UInt8

namespace Memory

variable (m : Memory)

/-- The byte at an address can be read: its page can. -/
def readableAt (a : ℕ) : Bool := m.readable (a / m.vmPageSize.toNat)

def bytes (a n : ℕ) : List UInt8 := (List.range n).map fun i => m.byte (a + i)

@[simp] theorem length_bytes (a n : ℕ) : (m.bytes a n).length = n := by
  simp [bytes]

theorem bytes_add (a n k : ℕ) : m.bytes a (n + k) = m.bytes a n ++ m.bytes (a + n) k := by
  simp [bytes, List.range_add, Nat.add_assoc]

theorem take_bytes (a : ℕ) {n k : ℕ} (h : k ≤ n) : (m.bytes a n).take k = m.bytes a k := by
  rw [bytes, ← List.map_take, List.take_range, Nat.min_eq_left h]
  rfl

theorem vmPageSize_pos : 0 < m.vmPageSize.toNat := by
  rcases m.pow_two with ⟨k, hk⟩
  rw [hk]
  exact Nat.two_pow_pos k

end Memory

/-- `mach_vm_read_overwrite`: everything that was asked for, or a failure. -/
def machVmReadOverwrite (m : Memory) (addr size : UInt64) : Option (List UInt8) :=
  if (List.range size.toNat).all fun i => m.readableAt (addr.toNat + i) then
    some (m.bytes addr.toNat size.toNat)
  else none

/-! ## The daemon -/

/-- How much the daemon reads next: up to the end of the page, or what is left of the
payload. -/
def memreadChunk (m : Memory) (cur : UInt64) (total : ℕ) : UInt64 :=
  let pgoff := cur &&& (m.vmPageSize - 1)
  let chunk := m.vmPageSize - pgoff
  let left := UInt64.ofNat (procfsCtlMaxpayload - total)
  if left < chunk then left else chunk

/-- The loop of `procfsd_handle_memread`, with the payload so far. -/
def memreadLoop (m : Memory) (base : UInt64) (out : List UInt8) : List UInt8 :=
  if out.length < procfsCtlMaxpayload then
    let cur := base + UInt64.ofNat out.length
    let chunk := memreadChunk m cur out.length
    match machVmReadOverwrite m cur chunk with
    | none => out
    | some got =>
      if got.length = 0 then out
      else if got.length < chunk.toNat then out ++ got
      else memreadLoop m base (out ++ got)
  else out
termination_by procfsCtlMaxpayload - out.length
decreasing_by
  rw [List.length_append]
  omega

/-- `procfsd_handle_memread`; `task` is what `task_for_pid` gave. -/
def procfsdHandleMemread (task : Option Memory) (arg : UInt64) : Result :=
  match task with
  | none => .error eperm
  | some m => .ok (memreadLoop m arg [])

/-! ## The kernel extension -/

inductive UioRw where
  | UIO_READ
  | UIO_WRITE
deriving DecidableEq, Repr

/-- What a read did: what it returned, the bytes that the caller got, and the `uio`
after it. -/
structure ReadReply where
  error : Int32
  bytes : List UInt8
  uio : Uio
deriving DecidableEq, Repr

/-- The loop of `procfs_domem`. The flag is `any`. -/
def domemLoop (request : UInt64 → Result) (any : Bool) (bytes : List UInt8) (uio : Uio) :
    ReadReply :=
  if 0 < uio.uioResid then
    match request uio.uioOffset.toUInt64 with
    | .error rc =>
      let error := if rc = Ctl.enotconn ∨ rc = Ctl.etimedout then enotsup else rc
      ⟨if any then 0 else error, bytes, uio⟩
    | .ok got =>
      if got.length = 0 then ⟨if any then 0 else eio, bytes, uio⟩
      else
        let moved := uiomove 0 (min got.length uio.uioResid) uio
        let bytes' := bytes ++ moved.copied.filterMap (byteAt got)
        match moved.error with
        | some e => ⟨e.code, bytes, uio⟩
        | none =>
          if got.length < procfsCtlMaxpayload then ⟨0, bytes', moved.uio⟩
          else domemLoop request true bytes' moved.uio
  else ⟨0, bytes, uio⟩
termination_by uio.uioResid
decreasing_by
  simp only [uiomove]
  omega

def eopnotsupp : Int32 := 102

/-- `procfs_domem`: `malloc` tells whether its buffer was allocated, `request` is
`procfs_ctl_request` of type `PROCFS_REQ_MEMREAD`. -/
def procfsDomem (pt : ProcTable) (creds : Cred) (malloc : Bool)
    (request : Int32 → UInt64 → Result) (rw : UioRw) (pnp : Pfsnode) (uio : Uio) : ReadReply :=
  if rw ≠ .UIO_READ then ⟨eopnotsupp, [], uio⟩
  else
    match pt.procFind pnp.nodeId.nodeidPid with
    | none => ⟨Errno.ESRCH.code, [], uio⟩
    | some p =>
      match procfsCheckCanAccessProcess creds p with
      | some e => ⟨e.code, [], uio⟩
      | none =>
        if malloc then domemLoop (request pnp.nodeId.nodeidPid) false [] uio
        else ⟨enomem, [], uio⟩

/-! ## One reply of the daemon -/

/-- `cur & (vm_page_size - 1)` is the offset in the page. -/
theorem Memory.toNat_pgoff (m : Memory) (cur : UInt64) :
    (cur &&& (m.vmPageSize - 1)).toNat = cur.toNat % m.vmPageSize.toNat := by
  rcases m.pow_two with ⟨k, hk⟩
  have hpos := m.vmPageSize_pos
  have hlt := m.vmPageSize.toNat_lt
  have hone : (1 : UInt64).toNat = 1 := rfl
  have hsub : (m.vmPageSize - 1).toNat = 2 ^ k - 1 := by
    rw [UInt64.toNat_sub, hone]
    omega
  rw [UInt64.toNat_and, hsub, hk, Nat.and_two_pow_sub_one_eq_mod]

/-- The next piece stays in its page and in the payload, and is not empty. -/
theorem toNat_memreadChunk (m : Memory) (cur : UInt64) {total : ℕ}
    (htotal : total < procfsCtlMaxpayload) :
    (memreadChunk m cur total).toNat =
      min (m.vmPageSize.toNat - cur.toNat % m.vmPageSize.toNat) (procfsCtlMaxpayload - total) := by
  have hmax : procfsCtlMaxpayload = 2048 := rfl
  have hoff := m.toNat_pgoff cur
  have hmod := Nat.mod_lt cur.toNat m.vmPageSize_pos
  have hlt := m.vmPageSize.toNat_lt
  have hleft : (UInt64.ofNat (procfsCtlMaxpayload - total)).toNat =
      procfsCtlMaxpayload - total := by
    rw [UInt64.toNat_ofNat']
    omega
  have hchunk : (m.vmPageSize - (cur &&& (m.vmPageSize - 1))).toNat =
      m.vmPageSize.toNat - cur.toNat % m.vmPageSize.toNat := by
    rw [UInt64.toNat_sub, hoff]
    omega
  simp only [memreadChunk]
  split
  · rename_i hless
    rw [UInt64.lt_iff_toNat_lt, hchunk, hleft] at hless
    rw [hleft]
    omega
  · rename_i hless
    rw [UInt64.lt_iff_toNat_lt, hchunk, hleft] at hless
    rw [hchunk]
    omega

/-- Bytes of one page can be read together or not at all. -/
theorem Memory.readableAt_add (m : Memory) {a i : ℕ}
    (h : a % m.vmPageSize.toNat + i < m.vmPageSize.toNat) :
    m.readableAt (a + i) = m.readableAt a := by
  have hdiv : (a + i) / m.vmPageSize.toNat = a / m.vmPageSize.toNat := by
    have hsplit := Nat.div_add_mod a m.vmPageSize.toNat
    rw [Nat.mul_comm] at hsplit
    apply Nat.div_eq_of_lt_le
    · omega
    · rw [Nat.succ_mul]
      omega
  rw [Memory.readableAt, Memory.readableAt, hdiv]

/-- A read inside one page depends on that page only. -/
theorem machVmReadOverwrite_page (m : Memory) {addr size : UInt64} (hpos : 0 < size.toNat)
    (hpage : addr.toNat % m.vmPageSize.toNat + size.toNat ≤ m.vmPageSize.toNat) :
    machVmReadOverwrite m addr size =
      if m.readableAt addr.toNat then some (m.bytes addr.toNat size.toNat) else none := by
  have hall : ((List.range size.toNat).all fun i => m.readableAt (addr.toNat + i)) =
      m.readableAt addr.toNat := by
    rw [Bool.eq_iff_iff, List.all_eq_true]
    constructor
    · intro h
      exact h 0 (List.mem_range.mpr hpos)
    · intro h i hi
      have hlt := List.mem_range.mp hi
      rw [m.readableAt_add (by omega)]
      exact h
  rw [machVmReadOverwrite, hall]

/-- What the daemon has so far is the beginning of the run. -/
theorem memreadLoop_eq {m : Memory} {base : UInt64}
    (hbase : base.toNat + procfsCtlMaxpayload < 2 ^ 64) {total : ℕ}
    (htotal : total ≤ procfsCtlMaxpayload)
    (hgood : ∀ i < total, m.readableAt (base.toNat + i) = true) :
    memreadLoop m base (m.bytes base.toNat total) =
      m.bytes base.toNat (stretch m.readableAt base.toNat procfsCtlMaxpayload) := by
  -- the payload fills up: the induction is on the room that is left in it
  induction hroom : procfsCtlMaxpayload - total using Nat.strong_induction_on
    generalizing total with
  | _ room ih =>
    have hrun := stretch_add hgood (procfsCtlMaxpayload - total)
    rw [Nat.add_sub_cancel' htotal] at hrun
    rw [memreadLoop, Memory.length_bytes]
    by_cases hmore : total < procfsCtlMaxpayload
    · have hcur : (base + UInt64.ofNat total).toNat = base.toNat + total := by
        rw [UInt64.toNat_add, UInt64.toNat_ofNat']
        omega
      have hchunk := toNat_memreadChunk m (base + UInt64.ofNat total) hmore
      have hmod := Nat.mod_lt (base + UInt64.ofNat total).toNat m.vmPageSize_pos
      have hread := @machVmReadOverwrite_page m (base + UInt64.ofNat total)
        (memreadChunk m (base + UInt64.ofNat total) total) (by omega) (by omega)
      simp only [if_pos hmore, hread, hcur]
      rw [hcur] at hchunk hmod
      generalize (memreadChunk m (base + UInt64.ofNat total) total).toNat = chunk at hchunk
      split
      · -- a page that cannot be read
        rename_i hnone
        have hbad : m.readableAt (base.toNat + total) = false := by
          by_contra hgood
          rw [if_pos (by simpa using hgood)] at hnone
          cases hnone
        rw [hrun, Lib.stretch_of_bad hbad, Nat.add_zero]
      · rename_i got hsome
        rw [Option.ite_none_right_eq_some] at hsome
        rcases hsome with ⟨hpage, hgot⟩
        cases hgot
        rw [Memory.length_bytes, if_neg (by omega), if_neg (Nat.lt_irrefl _), ← Memory.bytes_add]
        -- the new bytes lie in the page of the first of them
        have hnew : ∀ i < chunk, m.readableAt (base.toNat + total + i) = true := by
          intro i hi
          rw [m.readableAt_add (by omega)]
          exact hpage
        exact ih (procfsCtlMaxpayload - (total + chunk)) (by omega) (by omega)
          (Lib.good_add hgood hnew) rfl
    · rw [if_neg hmore]
      have heq : total = procfsCtlMaxpayload := by omega
      subst heq
      rw [Lib.stretch_of_good hgood]

/-- A reply is the run of readable bytes, cut at the size of a payload. -/
theorem procfsdHandleMemread_eq {m : Memory} {base : UInt64}
    (hbase : base.toNat + procfsCtlMaxpayload < 2 ^ 64) :
    procfsdHandleMemread (some m) base =
      .ok (m.bytes base.toNat (stretch m.readableAt base.toNat procfsCtlMaxpayload)) := by
  have hloop := memreadLoop_eq (m := m) hbase (Nat.zero_le _)
    (fun i hi => absurd hi (Nat.not_lt_zero i))
  exact congrArg Except.ok hloop

/-! ## The whole read -/

/-- What `uiomove` hands out of a buffer that is large enough. -/
theorem uiomove_bytes_from {buf : List UInt8} {k n : ℕ} {uio : Uio} (hbuf : k + n ≤ buf.length)
    (hresid : n ≤ uio.uioResid) :
    (uiomove k n uio).copied.filterMap (byteAt buf) = (buf.drop k).take n := by
  rw [uiomove_copied, Nat.min_eq_left hresid, List.filterMap_map]
  induction n with
  | zero => rfl
  | succ n ih =>
    have hlt : n < (buf.drop k).length := by
      rw [List.length_drop]
      omega
    have hbyte : (byteAt buf ∘ fun i : ℕ => (k : ℤ) + i) n = some (buf.drop k)[n] := by
      have hpos : (0 : ℤ) ≤ (k : ℤ) + n := by omega
      have hidx : ((k : ℤ) + n).toNat = k + n := by omega
      simp [byteAt, hpos, hidx, List.getElem?_eq_getElem (show k + n < buf.length by omega)]
    rw [List.range_succ, List.filterMap_append, ih (by omega) (by omega),
      List.filterMap_cons_some hbyte, List.filterMap_nil, List.take_succ_eq_append_getElem hlt]

theorem uiomove_bytes {buf : List UInt8} {n : ℕ} {uio : Uio} (hbuf : n ≤ buf.length)
    (hresid : n ≤ uio.uioResid) :
    (uiomove 0 n uio).copied.filterMap (byteAt buf) = buf.take n :=
  @uiomove_bytes_from buf 0 n uio (by omega) hresid

/-- A pass that gets some bytes hands out as many of them as are wanted, and is the last
one unless it got a full payload. -/
theorem domemLoop_piece {request : UInt64 → Result} {any : Bool} {bytes got : List UInt8}
    {uio : Uio}
    (hresid : 0 < uio.uioResid) (hrequest : request uio.uioOffset.toUInt64 = .ok got)
    (hgot : got.length ≠ 0) {n : ℕ} (hn : n = min got.length uio.uioResid) :
    domemLoop request any bytes uio =
      if got.length < procfsCtlMaxpayload then
        ⟨0, bytes ++ got.take n, ⟨uio.uioOffset + Int64.ofNat n, uio.uioResid - n⟩⟩
      else
        domemLoop request true (bytes ++ got.take n)
          ⟨uio.uioOffset + Int64.ofNat n, uio.uioResid - n⟩ := by
  have hmoved := @uiomove_bytes got n uio (by omega) (by omega)
  have huio : (uiomove 0 n uio).uio =
      ⟨uio.uioOffset + Int64.ofNat n, uio.uioResid - n⟩ := by
    simp only [uiomove, Nat.min_eq_left (show n ≤ uio.uioResid by omega)]
  rw [domemLoop]
  simp only [if_pos hresid, hrequest, if_neg hgot, ← hn, hmoved, huio]
  rfl

/-- A pass that gets nothing is the last one, and an error if it is the first one. -/
theorem domemLoop_hole {request : UInt64 → Result} {any : Bool} {bytes : List UInt8} {uio : Uio}
    (hresid : 0 < uio.uioResid) (hrequest : request uio.uioOffset.toUInt64 = .ok []) :
    domemLoop request any bytes uio = ⟨if any then 0 else eio, bytes, uio⟩ := by
  rw [domemLoop]
  simp only [if_pos hresid, hrequest, List.length_nil, if_true]

/-- What a read of `len` bytes at `start` comes to, when `n` of them can be read. -/
def Memory.reply (m : Memory) (start len n : ℕ) : ReadReply where
  error := if m.readableAt start then 0 else eio
  bytes := m.bytes start n
  uio := ⟨Int64.ofNat (start + n), len - n⟩

/-- The caller has the beginning of the run: the rest of the read completes it. -/
theorem domemLoop_eq {m : Memory} {start len k left : ℕ} (hlen : 0 < len)
    (hsum : start + len < 2 ^ 63) (hleft : k + left = len)
    (hgood : ∀ i < k, m.readableAt (start + i) = true) :
    domemLoop (procfsdHandleMemread (some m)) (decide (0 < k)) (m.bytes start k)
        ⟨Int64.ofNat (start + k), left⟩ =
      m.reply start len (stretch m.readableAt start len) := by
  -- every pass moves at least one byte: the induction is on what is left to read
  induction left using Nat.strong_induction_on generalizing k with
  | _ left ih =>
    have hmax : procfsCtlMaxpayload = 2048 := rfl
    have hrun := stretch_add hgood left
    rw [hleft] at hrun
    have hfirst : 0 < k → m.readableAt start = true := fun h => hgood 0 h
    by_cases hmore : 0 < left
    · have hva : (Int64.ofNat (start + k)).toUInt64.toNat = start + k := by
        show (UInt64.ofNat (start + k)).toNat = start + k
        rw [UInt64.toNat_ofNat']
        omega
      have hreply := @procfsdHandleMemread_eq m (Int64.ofNat (start + k)).toUInt64 (by omega)
      rw [hva] at hreply
      have hpiece := Lib.stretch_longestRun m.readableAt (start + k) procfsCtlMaxpayload
      have hshort := @Lib.stretch_of_short m.readableAt (start + k) procfsCtlMaxpayload
      generalize stretch m.readableAt (start + k) procfsCtlMaxpayload = got at hreply hpiece hshort
      by_cases hnone : got = 0
      · -- a hole
        subst hnone
        have hbad := hpiece.stops (by omega)
        rw [domemLoop_hole hmore hreply, hrun, hshort (by omega) left, Nat.zero_min, Nat.add_zero,
          Memory.reply]
        by_cases hany : 0 < k
        · simp only [hfirst hany, hany, decide_true, if_true]
          congr 2
          omega
        · have hzero : k = 0 := by omega
          subst hzero
          rw [Nat.add_zero] at hbad
          simp [hbad, ← hleft]
      · -- a piece of the run: `n` bytes of it are moved
        obtain ⟨n, hn⟩ : ∃ n, n = min got left := ⟨_, rfl⟩
        have hany : 0 < k + n := by omega
        have hgood' := Lib.good_add hgood fun i (hi : i < n) => hpiece.good i (by omega)
        have hstart : m.readableAt start = true := hgood' 0 hany
        have hbytes : m.bytes start k ++ (m.bytes (start + k) got).take n =
            m.bytes start (k + n) := by
          rw [m.take_bytes (start + k) (by omega), ← Memory.bytes_add]
        have hoffset : Int64.ofNat (start + k) + Int64.ofNat n = Int64.ofNat (start + (k + n)) := by
          rw [← Int64.ofNat_add, Nat.add_assoc]
        rw [domemLoop_piece hmore hreply (by rwa [Memory.length_bytes]) (n := n)
          (by rw [Memory.length_bytes]; exact hn), Memory.length_bytes, hbytes, hoffset]
        by_cases hend : got < procfsCtlMaxpayload
        · -- a short piece ends at the hole
          rw [if_pos hend, hrun, hshort hend left, ← hn, Memory.reply, hstart]
          simp only [if_true]
          congr 2
          omega
        · rw [if_neg hend]
          have hloop := ih (left - n) (by omega) (k := k + n) (by omega) hgood'
          rwa [decide_eq_true hany] at hloop
    · have hall : k = len := by omega
      subst hall
      rw [domemLoop, if_neg hmore, Lib.stretch_of_good hgood, Memory.reply, hfirst hlen]
      have hzero : left = 0 := by omega
      simp [hzero]

/-- A permitted read returns the longest run of readable bytes from its address on, cut at
its length, and leaves the offset behind it. It fails, with `EIO`, exactly when the first
byte cannot be read. -/
theorem domem_reads_longestRun {pt : ProcTable} {creds : Cred} {pnp : Pfsnode} {p : Proc}
    (hproc : pt.procFind pnp.nodeId.nodeidPid = some p)
    (haccess : procfsCheckCanAccessProcess creds p = none)
    {taskForPid : Int32 → Option Memory} {m : Memory}
    (htask : taskForPid pnp.nodeId.nodeidPid = some m)
    {start len : ℕ} (hlen : 0 < len) (hsum : start + len < 2 ^ 63) :
    ∃ n, LongestRun m.readableAt start len n ∧
      procfsDomem pt creds true (fun pid => procfsdHandleMemread (taskForPid pid)) .UIO_READ pnp
          ⟨Int64.ofNat start, len⟩ =
        ⟨if m.readableAt start then 0 else eio, m.bytes start n,
          ⟨Int64.ofNat (start + n), len - n⟩⟩ := by
  refine ⟨_, Lib.stretch_longestRun m.readableAt start len, ?_⟩
  have hloop := domemLoop_eq (m := m) (k := 0) hlen hsum (Nat.zero_add len)
    (fun i hi => absurd hi (Nat.not_lt_zero i))
  simp only [procfsDomem, hproc, haccess, htask]
  exact hloop

/-- Only the first page can be read. -/
def firstPage : Memory where
  vmPageSize := 4096
  pow_two := ⟨12, rfl⟩
  readable page := page == 0
  byte _ := 7

def shFile : Pfsnode where
  nodeMntId := 1
  nodeId := ⟨7, 0, 100⟩
  nodeStructureNode := ⟨0, 0, .file, cstr "mem", 100, psnFlagProcess, none⟩
  nodeVnode := ⟨0, .VREG⟩

/-- The hole is where the second transfer begins. -/
theorem domem_reads_firstPage :
    procfsDomem (ProcTable.single shProc (by decide)) ⟨501, 12⟩ true
        (fun pid => procfsdHandleMemread (if pid = 7 then some firstPage else none))
          .UIO_READ shFile
        ⟨Int64.ofNat 2048, 4096⟩ =
      ⟨0, firstPage.bytes 2048 2048, ⟨Int64.ofNat 4096, 2048⟩⟩ := by
  rcases @domem_reads_longestRun (ProcTable.single shProc (by decide)) ⟨501, 12⟩ shFile shProc
    rfl (by decide) (fun pid => if pid = 7 then some firstPage else none) firstPage rfl
    2048 4096 (by decide) (by decide) with ⟨n, hrun, hreply⟩
  have hpage : ∀ a, firstPage.readableAt a = decide (a / 4096 = 0) := fun _ => rfl
  have hn : n = 2048 := by
    refine hrun.unique ⟨by decide, ?_, ?_⟩
    · intro i hi
      rw [hpage, decide_eq_true_eq]
      omega
    · intro _
      rfl
  rw [hreply, hn]
  rfl

end ProcFS.Data
