import ProcFS.CopyData
import ProcFS.Ctl
import ProcFS.Lib.Bytes
import ProcFS.Lib.Pieces
import ProcFS.Lib.Printf
import ProcFS.Version

/-!
# ProcFS.Data.PageText — texts with their own page arithmetic

`loadavg`, `cpuinfo` and the native `version` do not go through `procfs_copy_data`. Each of
them takes the offset within a page off the length of its text and then moves that many
bytes from the beginning of the text, `cpuinfo` once for each processor. The offset never
moves the beginning, so a read that starts inside the text returns its beginning again.

`Lib.CutsFrom` is what the three have in common. A reader gets the text only in one piece,
and even then the next call must find an offset within the page that is not smaller than
the length of any record.

* `moveText_eq`: the bytes of one move.
* `PageNode.cutsFrom`: a call cuts each record by the offset within the page.
* `pageText_readsLikeOne_iff`: which reads return the text.
-/

namespace ProcFS.Data

open Ctl (Result)
open Lib (cutAll CutsFrom Delivers padLeft hexField stanza u32At)

/-! ## The move -/

def lbfsz : ℕ := 8 * 1024

def truncPage (pageSize : ℕ) (va : UInt64) : UInt64 :=
  UInt64.ofNat (va.toNat / pageSize * pageSize)

/-- `off - trunc_page(off)` for the offset of the `uio`. -/
def pageOffset (pageSize : ℕ) (uio : Uio) : Int64 :=
  let off := uio.uioOffset.toUInt64
  (off - truncPage pageSize off).toInt64

/-- `snprintf(buf, size, ...)`: what the buffer holds, and the length of the whole text. -/
def snprintf (size : ℕ) (text : CString) : CString × Int32 :=
  (text.take (size - 1) ++ [0], Int32.ofNat text.length)

/-- What a read call has returned, and the `uio`. A byte from outside the buffer is `none`. -/
structure PageRead where
  error : Option Errno
  returned : List (Option UInt8)
  uio : Uio

/-- A call before it has moved anything. -/
def PageRead.start (uio : Uio) : PageRead := ⟨none, [], uio⟩

/-- `xlen = len - pgoff; uiomove(buf, xlen, uio)`. Nothing is moved if `xlen` is not
positive. -/
def moveText (size : ℕ) (pgoff : Int64) (r : PageRead) (text : CString) : PageRead :=
  let (buf, len) := snprintf size text
  let xlen := (len.toInt64 - pgoff).toInt32
  let out := uiomove 0 xlen.toNatClampNeg r.uio
  ⟨out.error, r.returned ++ out.copied.map (byteAt buf), out.uio⟩

/-! ## The load average -/

/-- `%02d`. -/
def fmtTwo (n : ℤ) : CString :=
  if n < 0 then cstr "-" ++ padLeft 48 1 (fmtNat n.natAbs) else padLeft 48 2 (fmtNat n.natAbs)

/-- `%d.%02d`, of two numbers. -/
def fmtPoint (whole part : Int32) : CString := fmtInt whole.toInt ++ cstr "." ++ fmtTwo part.toInt

/-- The averages as the daemon sent them; without an answer they are 0. -/
def loadOf (reply : Result) : Int32 × Int32 × Int32 :=
  match reply with
  | .error _ => (0, 0, 0)
  | .ok la =>
    if la.length = 12 then ((u32At 0 la).toInt32, (u32At 4 la).toInt32, (u32At 8 la).toInt32)
    else (0, 0, 0)

/-- The line of `procfs_doloadavg`, without its newline. -/
def loadavgLine (reply : Result) (totalProcs : Int32) : CString :=
  let (load1, load5, load15) := loadOf reply
  let running : Int32 := 1
  let lastpid : Int32 := 0
  fmtPoint (load1 / 100) (load1 % 100) ++ cstr " " ++ fmtPoint (load5 / 100) (load5 % 100) ++
    cstr " " ++ fmtPoint (load15 / 100) (load15 % 100) ++ cstr " " ++ fmtInt running.toInt ++
    cstr "/" ++ fmtInt totalProcs.toInt ++ cstr " " ++ fmtInt lastpid.toInt

def procfsDoloadavg (pageSize : ℕ) (reply : Result) (totalProcs : Int32) (uio : Uio) : PageRead :=
  moveText lbfsz (pageOffset pageSize uio) (.start uio) (loadavgLine reply totalProcs ++ [10])

/-! ## The version -/

/-- The text of `procfs_build_linux_version`, if a release is spoofed. -/
def procfsBuildLinuxVersion (linuxVersion : Int32) : Option CString :=
  (procfsSpoofedRelease linuxVersion).map fun rel =>
    cstr "Linux version " ++ rel ++
      cstr " (builder@linux-build-env) (gcc version 10.3.0 (Ubuntu 10.3.0-1ubuntu1)) " ++
      cstr "#1 SMP PREEMPT_DYNAMIC Sat Dec 14 12:00:00 UTC 2024\n"

/-- `procfs_doversion`; `version` is the kernel's. -/
def procfsDoversion (pageSize : ℕ) (linuxVersion : Int32) (version : CString) (uio : Uio) :
    PageRead :=
  match procfsBuildLinuxVersion linuxVersion with
  | some vb =>
    let out := procfsCopyData false (Int32.ofNat vb.length) uio
    ⟨out.error, out.copied.map (byteAt vb), out.uio⟩
  | none => moveText lbfsz (pageOffset pageSize uio) (.start uio) (version ++ [10])

/-! ## The processors -/

/-- What the text of a processor is made of on x86_64: the fields of `cpuid_info()`, and what
the functions of `cpu.c` return. -/
structure X86Cpu where
  tscFrequency : UInt64
  cpuidVendor : CString
  cpuidFamily : UInt8
  cpuidModel : UInt8
  cpuidExtmodel : UInt8
  cpuidBrandString : CString
  microcodeVersion : UInt32
  cpuidCacheSize : UInt32
  cpuidStepping : UInt8
  coreCount : UInt32
  cacheLinesize : UInt32
  addressBitsPhysical : UInt32
  addressBitsVirtual : UInt32
  featureFpu : Bool
  cr0Wp : Bool
  isAmdCpu : Bool
  cpuFlags : CString
  amdFeatureFlags : CString
  cpuExtFlags : CString
  amdFeature2Flags : CString
  leaf7Flags : CString
  leaf7ExtFlags : CString
  pmFlags : CString
  cpuBugs : CString

def X86Cpu.fqmhz (c : X86Cpu) : Int32 :=
  if c.tscFrequency ≠ 0 then ((c.tscFrequency + 4999) / 1000000).toUInt32.toInt32 else 0

def X86Cpu.fqkhz (c : X86Cpu) : Int32 :=
  if c.tscFrequency ≠ 0 then ((c.tscFrequency + 4999) / 10000 % 100).toUInt32.toInt32 else 0

/-- The variables that count with the processors. -/
structure X86Count where
  apicid : Int32
  initialApicid : Int32
  coreId : Int32

/-- The end of the body of the loop. -/
def X86Count.next (maxCpus cpuCores : UInt32) (v : X86Count) : X86Count :=
  let apicid := if maxCpus.toInt32 ≤ v.apicid + 2 then 1 else v.apicid + 2
  { apicid := apicid
    initialApicid := apicid
    coreId := if cpuCores.toInt32 - 1 < v.coreId + 1 then 0 else v.coreId + 1 }

/-- The variables in pass `cntCpus` of the loop. -/
def x86Count (maxCpus cpuCores : UInt32) : ℕ → X86Count
  | 0 => ⟨0, 0, 0⟩
  | cntCpus + 1 => (x86Count maxCpus cpuCores cntCpus).next maxCpus cpuCores

def yesNo (b : Bool) : CString := if b then cstr "yes" else cstr "no"

/-- The lines of a processor but the first, as labels and values. -/
def X86Cpu.fields (c : X86Cpu) (maxCpus : UInt32) (v : X86Count) : List (CString × CString) :=
  [(cstr "vendor_id\t\t: ", c.cpuidVendor),
    (cstr "cpu family\t\t: ", fmtNat c.cpuidFamily.toNat),
    (cstr "model\t\t\t: ", fmtNat (c.cpuidModel + c.cpuidExtmodel <<< 4).toNat),
    (cstr "model name\t\t: ", c.cpuidBrandString),
    (cstr "microcode\t\t: 0x", hexField false 7 c.microcodeVersion.toNat),
    (cstr "stepping\t\t: ", fmtNat c.cpuidStepping.toNat),
    (cstr "cpu MHz\t\t\t: ", fmtPoint c.fqmhz c.fqkhz),
    (cstr "cache size\t\t: ", fmtInt c.cpuidCacheSize.toInt32.toInt ++ cstr " KB"),
    (cstr "physical id\t\t: ", fmtNat 0),
    (cstr "siblings\t\t: ", fmtNat maxCpus.toNat),
    (cstr "core id\t\t\t: ", fmtInt v.coreId.toInt),
    (cstr "cpu cores\t\t: ", fmtNat c.coreCount.toNat),
    (cstr "apicid\t\t\t: ", fmtNat v.apicid.toUInt32.toNat),
    (cstr "initial apicid\t\t: ", fmtNat v.initialApicid.toUInt32.toNat),
    (cstr "fpu\t\t\t: ", yesNo c.featureFpu),
    (cstr "fpu_exception\t\t: ", yesNo c.featureFpu),
    (cstr "cpuid level\t\t: ", fmtNat c.coreCount.toNat),
    (cstr "wp\t\t\t: ", yesNo c.cr0Wp),
    (cstr "flags\t\t\t: ", c.cpuFlags ++
      (if c.isAmdCpu then c.amdFeatureFlags else c.cpuExtFlags) ++
      c.amdFeature2Flags ++ c.leaf7Flags ++ c.leaf7ExtFlags),
    (cstr "bugs\t\t\t: ", c.cpuBugs),
    (cstr "bogomips\t\t: ", fmtPoint (c.fqmhz * 2) c.fqkhz),
    (cstr "TLB size\t\t: ", fmtNat (c.cacheLinesize * 40).toNat ++ cstr " 4K pages"),
    (cstr "clflush_size\t\t: ", fmtNat c.cacheLinesize.toNat),
    (cstr "cache_alignment\t\t: ", fmtInt c.cacheLinesize.toInt32.toInt),
    (cstr "address sizes\t\t: ", fmtInt c.addressBitsPhysical.toInt32.toInt ++
      cstr " bits physical, " ++ fmtInt c.addressBitsVirtual.toInt32.toInt ++ cstr " bits virtual"),
    (cstr "power management\t: ", c.pmFlags)]

/-- What the text of a processor is made of on arm64. `clusters` is what
`procfs_cpu_clusters` filled in. -/
structure Arm64Cpu where
  bogomips : CString
  features : CString
  implementer : CString
  architecture : CString
  variant : CString
  revision : CString
  part : CString
  partEcore : CString
  clusters : ℕ → UInt8

/-- The part number of a processor: efficiency cores have their own. -/
def Arm64Cpu.partOf (c : Arm64Cpu) (cntCpus : ℕ) : CString :=
  if cntCpus < 64 ∧ c.clusters cntCpus = 69 then c.partEcore else c.part

def Arm64Cpu.fields (c : Arm64Cpu) (cntCpus : ℕ) : List (CString × CString) :=
  [(cstr "BogoMIPS\t\t: ", c.bogomips),
    (cstr "Features\t\t: ", c.features),
    (cstr "CPU implementer\t\t: ", c.implementer),
    (cstr "CPU architecture\t: ", c.architecture),
    (cstr "CPU variant\t\t: ", c.variant),
    (cstr "CPU part\t\t: ", c.partOf cntCpus),
    (cstr "CPU revision\t\t: ", c.revision)]

inductive Cpu where
  | x86 (c : X86Cpu)
  | arm64 (c : Arm64Cpu)

def Cpu.fields (cpu : Cpu) (maxCpus : UInt32) (cntCpus : ℕ) : List (CString × CString) :=
  match cpu with
  | .x86 c => c.fields maxCpus (x86Count maxCpus c.coreCount cntCpus)
  | .arm64 c => c.fields cntCpus

/-- The strings of a processor that come from outside. -/
def Cpu.strings : Cpu → List CString
  | .x86 c => [c.cpuidVendor, c.cpuidBrandString, c.cpuFlags, c.amdFeatureFlags, c.cpuExtFlags,
      c.amdFeature2Flags, c.leaf7Flags, c.leaf7ExtFlags, c.pmFlags, c.cpuBugs]
  | .arm64 c => [c.bogomips, c.features, c.implementer, c.architecture, c.variant, c.revision,
      c.part, c.partEcore]

def processorLine (cntCpus : ℕ) : CString := cstr "processor\t\t: " ++ fmtNat cntCpus

def Cpu.text (cpu : Cpu) (maxCpus : UInt32) (cntCpus : ℕ) : CString :=
  stanza 10 (processorLine cntCpus) ((cpu.fields maxCpus cntCpus).map fun f => f.1 ++ f.2)

/-- `procfs_docpuinfo`. The offset within the page is taken once, before the loop, and the
result of `uiomove` is not looked at. -/
def procfsDocpuinfo (pageSize : ℕ) (cpu : Cpu) (maxCpus : UInt32) (uio : Uio) : PageRead :=
  let page := pageOffset pageSize uio
  let r := (List.range maxCpus.toNat).foldl
    (fun r cntCpus => moveText (lbfsz * 4) page r (cpu.text maxCpus cntCpus)) (.start uio)
  { r with error := none }

/-! ## The three nodes as one -/

/-- A node with page arithmetic, and what it reads. -/
inductive PageNode where
  | loadavg (reply : Result) (totalProcs : Int32)
  | version (linuxVersion : Int32) (kernelVersion : CString)
  | cpuinfo (cpu : Cpu) (maxCpus : UInt32)

namespace PageNode

def read (pageSize : ℕ) : PageNode → Uio → PageRead
  | loadavg reply totalProcs, uio => procfsDoloadavg pageSize reply totalProcs uio
  | version linuxVersion kernelVersion, uio =>
    procfsDoversion pageSize linuxVersion kernelVersion uio
  | cpuinfo cpu maxCpus, uio => procfsDocpuinfo pageSize cpu maxCpus uio

/-- The texts that are moved one after the other. -/
def records : PageNode → List CString
  | loadavg reply totalProcs => [loadavgLine reply totalProcs ++ [10]]
  | version _ kernelVersion => [kernelVersion ++ [10]]
  | cpuinfo cpu maxCpus => (List.range maxCpus.toNat).map (cpu.text maxCpus)

def text (node : PageNode) : CString := node.records.flatten

def bufferSize : PageNode → ℕ
  | loadavg _ _ => lbfsz
  | version _ _ => lbfsz
  | cpuinfo _ _ => lbfsz * 4

/-- The strings from outside are single lines, and no release is spoofed. -/
def Plain : PageNode → Prop
  | loadavg _ _ => True
  | version linuxVersion kernelVersion =>
    procfsSpoofedRelease linuxVersion = none ∧ 10 ∉ kernelVersion
  | cpuinfo cpu _ => ∀ s ∈ cpu.strings, 10 ∉ s

/-- Every text fits its buffer. -/
def Fits (node : PageNode) : Prop := ∀ r ∈ node.records, r.length < node.bufferSize

/-- A read call of `n` bytes at an offset: what it returns, and the offset after it. -/
def call (pageSize : ℕ) (node : PageNode) (off : Int64) (n : ℕ) : List (Option UInt8) × Int64 :=
  let r := node.read pageSize ⟨off, n⟩
  (r.returned, r.uio.uioOffset)

end PageNode

/-! ## What a call returns -/

variable {pageShift : ℕ}

/-- The offset within the page. -/
theorem pageOffset_ofNat (hshift : pageShift ≤ 30) (off n : ℕ) :
    pageOffset (2 ^ pageShift) ⟨Int64.ofNat off, n⟩ = Int64.ofNat (off % 2 ^ pageShift) := by
  have hdvd : 2 ^ pageShift ∣ 2 ^ 64 := Nat.pow_dvd_pow 2 (by omega)
  have hmod : off % 2 ^ 64 % 2 ^ pageShift = off % 2 ^ pageShift := Nat.mod_mod_of_dvd off hdvd
  have hsplit := Nat.div_add_mod' (off % 2 ^ 64) (2 ^ pageShift)
  have hsub : UInt64.ofNat off - truncPage (2 ^ pageShift) (UInt64.ofNat off) =
      UInt64.ofNat (off % 2 ^ pageShift) := by
    have hoff : UInt64.ofNat off = UInt64.ofNat (off % 2 ^ 64) := UInt64.ofNat_mod_size.symm
    rw [truncPage, UInt64.toNat_ofNat', hoff, ← UInt64.ofNat_sub (by omega), ← hmod]
    congr 1
    omega
  show (UInt64.ofNat off - truncPage (2 ^ pageShift) (UInt64.ofNat off)).toInt64 = _
  rw [hsub]
  rfl

/-- The length of a move. -/
theorem xlen_eq {len d : ℕ} (hlen : len < 2 ^ 31) (hd : d < 2 ^ 31) :
    ((Int32.ofNat len).toInt64 - Int64.ofNat d).toInt32.toNatClampNeg = len - d := by
  have hrem := remaining_toInt (Int32.ofNat len) (Int64.ofNat d)
  rw [Int32.toInt_ofNat_of_lt hlen, Int64.toInt_ofNat_of_lt (by omega), Int.bmod_def] at hrem
  show ((Int32.ofNat len).toInt64 - Int64.ofNat d).toInt32.toInt.toNat = len - d
  rw [hrem]
  split <;> omega

/-- The first bytes of a buffer that holds a text. -/
theorem map_byteAt {buf text : CString} {k : ℕ} (hbuf : text <+: buf) (hk : k ≤ text.length) :
    ((List.range k).map fun i : ℕ => (0 : ℤ) + (i : ℤ)).map (byteAt buf) =
      (text.take k).map some := by
  obtain ⟨rest, rfl⟩ := hbuf
  apply List.ext_getElem
  · simp [hk]
  · intro i hi hi'
    simp only [List.length_map, List.length_range] at hi
    simp [byteAt, List.getElem?_append_left (show i < text.length by omega)]

/-- The bytes that a move takes from a buffer that holds the whole text. -/
theorem moveText_eq {size d : ℕ} {text : CString} (hfits : text.length < size)
    (hsize : size ≤ 2 ^ 31) (hd : d < 2 ^ 31) (r : PageRead) :
    moveText size (Int64.ofNat d) r text =
      ⟨none, r.returned ++ ((text.take (text.length - d)).take r.uio.uioResid).map some,
        ⟨r.uio.uioOffset + Int64.ofNat (min (text.length - d) r.uio.uioResid),
          r.uio.uioResid - min (text.length - d) r.uio.uioResid⟩⟩ := by
  have hbuf : text <+: text.take (size - 1) ++ [0] := by
    rw [List.take_of_length_le (by omega)]
    exact List.prefix_append text [0]
  have hbytes := map_byteAt hbuf (k := min (text.length - d) r.uio.uioResid) (by omega)
  have htake : (text.take (text.length - d)).take r.uio.uioResid =
      text.take (min (text.length - d) r.uio.uioResid) := by
    rw [List.take_take, Nat.min_comm]
  simp only [moveText, snprintf, uiomove, xlen_eq (show text.length < 2 ^ 31 by omega) hd, hbytes,
    htake]

/-- All the moves of a call. -/
theorem foldl_moveText {size d : ℕ} {recs : List CString} (hfits : ∀ r ∈ recs, r.length < size)
    (hsize : size ≤ 2 ^ 31) (hd : d < 2 ^ 31) (r : PageRead) :
    (recs.foldl (moveText size (Int64.ofNat d)) r).returned =
        r.returned ++ ((cutAll d recs).take r.uio.uioResid).map some ∧
      (recs.foldl (moveText size (Int64.ofNat d)) r).uio.uioOffset =
        r.uio.uioOffset + Int64.ofNat ((cutAll d recs).take r.uio.uioResid).length := by
  induction recs generalizing r with
  | nil => simp [cutAll]
  | cons text recs ih =>
    have hlen : (text.take (text.length - d)).length = text.length - d := by
      rw [List.length_take]
      omega
    have hcut : (cutAll d (text :: recs)).take r.uio.uioResid =
        (text.take (text.length - d)).take r.uio.uioResid ++
          (cutAll d recs).take (r.uio.uioResid - min (text.length - d) r.uio.uioResid) := by
      rw [cutAll, List.flatMap_cons, List.take_append, hlen, ← cutAll]
      congr 2
      omega
    rw [List.foldl_cons, moveText_eq (hfits text List.mem_cons_self) hsize hd]
    obtain ⟨hreturned, hoffset⟩ := ih (fun r hr => hfits r (List.mem_cons_of_mem text hr)) _
    rw [hreturned, hoffset, hcut, List.map_append, List.append_assoc]
    refine ⟨rfl, ?_⟩
    have hfirst : ((text.take (text.length - d)).take r.uio.uioResid).length =
        min (text.length - d) r.uio.uioResid := by
      rw [List.length_take, hlen, Nat.min_comm]
    rw [List.length_append, hfirst, Int64.ofNat_add, ← Int64.add_assoc]

/-! ## Texts without newlines -/

section Plain

theorem newline_notMem_fmtNat (n : ℕ) : 10 ∉ fmtNat n := by
  intro h
  exact absurd (Lib.digit_bounds (by decide) (by decide) (show 10 ∈ Lib.digits 10 false n from h)).1
    (by decide)

theorem newline_notMem_padLeft {w : ℕ} {s : CString} (h : 10 ∉ s) : 10 ∉ padLeft 48 w s := by
  rw [padLeft, List.mem_append, not_or]
  refine ⟨fun hmem => ?_, h⟩
  exact absurd (List.eq_of_mem_replicate hmem) (by decide)

theorem newline_notMem_fmtInt (n : ℤ) : 10 ∉ fmtInt n := by
  have hsign : 10 ∉ cstr "-" := by decide
  unfold fmtInt
  split <;> simp [newline_notMem_fmtNat, hsign]

theorem newline_notMem_fmtTwo (n : ℤ) : 10 ∉ fmtTwo n := by
  have hsign : 10 ∉ cstr "-" := by decide
  unfold fmtTwo
  split <;> simp [newline_notMem_padLeft (newline_notMem_fmtNat _), hsign]

theorem newline_notMem_fmtPoint (whole part : Int32) : 10 ∉ fmtPoint whole part := by
  have hpoint : 10 ∉ cstr "." := by decide
  simp [fmtPoint, newline_notMem_fmtInt, newline_notMem_fmtTwo, hpoint]

theorem newline_notMem_loadavgLine (reply : Result) (totalProcs : Int32) :
    10 ∉ loadavgLine reply totalProcs := by
  have hblank : 10 ∉ cstr " " := by decide
  have hslash : 10 ∉ cstr "/" := by decide
  simp [loadavgLine, newline_notMem_fmtInt, newline_notMem_fmtPoint, hblank, hslash]

theorem newline_notMem_yesNo (b : Bool) : 10 ∉ yesNo b := by
  cases b <;> decide

theorem newline_notMem_hexField (w n : ℕ) : 10 ∉ hexField false w n := by
  intro h
  exact absurd (Lib.lt_of_mem_hexField h) (by decide)

/-- The values of a processor are single lines. -/
theorem newline_notMem_fields {cpu : Cpu} (h : ∀ s ∈ cpu.strings, 10 ∉ s) (maxCpus : UInt32)
    (cntCpus : ℕ) : ∀ f ∈ cpu.fields maxCpus cntCpus, 10 ∉ f.2 := by
  cases cpu with
  | x86 c =>
    simp only [Cpu.strings, List.forall_mem_cons] at h
    obtain ⟨hvendor, hbrand, hflags, hamd, hext, hamd2, hleaf7, hleaf7ext, hpm, hbugs, -⟩ := h
    have hext' : 10 ∉ if c.isAmdCpu then c.amdFeatureFlags else c.cpuExtFlags := by
      split <;> assumption
    have hkb : 10 ∉ cstr " KB" := by decide
    have hpages : 10 ∉ cstr " 4K pages" := by decide
    have hphysical : 10 ∉ cstr " bits physical, " := by decide
    have hvirtual : 10 ∉ cstr " bits virtual" := by decide
    simp [Cpu.fields, X86Cpu.fields, newline_notMem_fmtNat, newline_notMem_fmtInt,
      newline_notMem_fmtPoint, newline_notMem_yesNo, newline_notMem_hexField, *]
  | arm64 c =>
    simp only [Cpu.strings, List.forall_mem_cons] at h
    obtain ⟨hbogomips, hfeatures, himpl, harch, hvariant, hrevision, hpart, hecore, -⟩ := h
    have hpart' : 10 ∉ c.partOf cntCpus := by
      unfold Arm64Cpu.partOf
      split <;> assumption
    simp [Cpu.fields, Arm64Cpu.fields, *]

/-- So are the labels, which are not empty. -/
theorem labels_ok (cpu : Cpu) (maxCpus : UInt32) (cntCpus : ℕ) :
    ∀ f ∈ cpu.fields maxCpus cntCpus, f.1 ≠ [] ∧ 10 ∉ f.1 := by
  cases cpu with
  | x86 c =>
    simp only [Cpu.fields, X86Cpu.fields, List.forall_mem_cons, List.not_mem_nil, false_implies,
      implies_true, and_true]
    and_intros <;> decide
  | arm64 c =>
    simp only [Cpu.fields, Arm64Cpu.fields, List.forall_mem_cons, List.not_mem_nil, false_implies,
      implies_true, and_true]
    decide

/-- The lines of a processor. -/
theorem linesOk_cpu {cpu : Cpu} (h : ∀ s ∈ cpu.strings, 10 ∉ s) (maxCpus : UInt32) (cntCpus : ℕ) :
    Lib.LinesOk 10 (processorLine cntCpus ::
      (cpu.fields maxCpus cntCpus).map fun f => f.1 ++ f.2) := by
  have hfirst : cstr "processor\t\t: " ≠ [] ∧ 10 ∉ cstr "processor\t\t: " := by decide
  intro line hline
  rcases List.mem_cons.mp hline with rfl | hline
  · simp [processorLine, hfirst, newline_notMem_fmtNat]
  · obtain ⟨f, hf, rfl⟩ := List.mem_map.mp hline
    have hlabel := labels_ok cpu maxCpus cntCpus f hf
    simp [hlabel, newline_notMem_fields h maxCpus cntCpus f hf]

theorem length_fields (cpu : Cpu) (maxCpus : UInt32) (i j : ℕ) :
    (cpu.fields maxCpus i).length = (cpu.fields maxCpus j).length := by
  cases cpu <;> simp [Cpu.fields, X86Cpu.fields, Arm64Cpu.fields]

/-- The first line of a processor tells which one it is. -/
theorem processorLine_suffix {i j : ℕ} (h : processorLine i <:+ processorLine j) : i = j := by
  have hsplit : ∀ n, processorLine n = 112 :: (cstr "rocessor\t\t: " ++ fmtNat n) := fun _ => rfl
  rw [hsplit, hsplit, List.suffix_cons_iff] at h
  rcases h with heq | hend
  · have hnum : fmtNat i = fmtNat j := List.append_cancel_left (List.cons.inj heq).2
    have hvalue := congrArg (Lib.value 10)
      (show Lib.digits 10 false i = Lib.digits 10 false j from hnum)
    rwa [Lib.value_digits (by decide) (by decide),
      Lib.value_digits (by decide) (by decide)] at hvalue
  · -- its first letter is there only once
    have hmem : 112 ∈ cstr "rocessor\t\t: " ++ fmtNat j := hend.subset List.mem_cons_self
    rcases List.mem_append.mp hmem with hlabel | hdigit
    · exact absurd hlabel (by decide)
    · exact absurd (Lib.digit_bounds (by decide) (by decide)
        (show 112 ∈ Lib.digits 10 false j from hdigit)).2 (by decide)

end Plain

namespace PageNode

variable {node : PageNode}

/-- No text of a node ends the whole before the last one does. -/
theorem unbordered (h : node.Plain) : Lib.Unbordered node.records := by
  cases node with
  | loadavg reply totalProcs =>
    exact Lib.unbordered_line (newline_notMem_loadavgLine reply totalProcs)
  | version linuxVersion kernelVersion => exact Lib.unbordered_line h.2
  | cpuinfo cpu maxCpus =>
    refine Lib.unbordered_stanzas (linesOk_cpu h maxCpus) (fun i j => ?_)
      (fun i j => processorLine_suffix)
    rw [List.length_map, List.length_map, length_fields cpu maxCpus i j]

theorem bufferSize_le (node : PageNode) : node.bufferSize ≤ 2 ^ 31 := by
  cases node <;> simp [bufferSize, lbfsz]

/-- A call moves the records. -/
theorem call_eq_foldl (h : node.Plain) (pageSize : ℕ) (off : Int64) (n : ℕ) :
    node.call pageSize off n =
      let r := node.records.foldl (moveText node.bufferSize (pageOffset pageSize ⟨off, n⟩))
        (.start ⟨off, n⟩)
      (r.returned, r.uio.uioOffset) := by
  cases node with
  | loadavg reply totalProcs => rfl
  | version linuxVersion kernelVersion =>
    simp only [call, read, procfsDoversion, procfsBuildLinuxVersion, h.1, Option.map_none]
    rfl
  | cpuinfo cpu maxCpus =>
    simp only [call, read, procfsDocpuinfo, records, List.foldl_map]
    rfl

/-- A call cuts each record by the offset within the page. -/
theorem cutsFrom (h : node.Plain) (hfits : node.Fits) (hshift : pageShift ≤ 30) :
    CutsFrom (node.call (2 ^ pageShift)) Int64.ofNat some (2 ^ pageShift) node.records := by
  intro off n
  have hpage : off % 2 ^ pageShift < 2 ^ 31 := by
    have hlt := Nat.mod_lt off (Nat.two_pow_pos pageShift)
    have hle : 2 ^ pageShift ≤ 2 ^ 30 := Nat.pow_le_pow_right (by decide) hshift
    omega
  obtain ⟨hreturned, hoffset⟩ := foldl_moveText hfits node.bufferSize_le hpage
    (.start ⟨Int64.ofNat off, n⟩)
  rw [call_eq_foldl h, pageOffset_ofNat hshift]
  simp only [hreturned, hoffset, List.length_map, Int64.ofNat_add]
  rfl

/-- One call that is large enough returns the whole text. -/
theorem call_whole (h : node.Plain) (hfits : node.Fits) (hshift : pageShift ≤ 30) {n : ℕ}
    (hn : node.text.length ≤ n) : (node.call (2 ^ pageShift) 0 n).1 = node.text.map some := by
  have hcall := cutsFrom h hfits hshift 0 n
  rw [Nat.zero_mod, Lib.cutAll_zero, ← text, List.take_of_length_le hn] at hcall
  exact congrArg Prod.fst hcall

/-- Read calls of these sizes, each from where the one before stopped, return what one large
read call returns, and then nothing. -/
def ReadsLikeOne (pageSize : ℕ) (node : PageNode) (sizes : ℕ → ℕ) : Prop :=
  ∃ limit, ∀ n, limit ≤ n → Delivers (node.call pageSize) 0 sizes (node.call pageSize 0 n).1

theorem readsLikeOne_iff_delivers (h : node.Plain) (hfits : node.Fits) (hshift : pageShift ≤ 30)
    (sizes : ℕ → ℕ) :
    node.ReadsLikeOne (2 ^ pageShift) sizes ↔
      Delivers (node.call (2 ^ pageShift)) 0 sizes (node.text.map some) := by
  constructor
  · rintro ⟨limit, hlimit⟩
    have hlarge := hlimit (max limit node.text.length) (Nat.le_max_left _ _)
    rwa [call_whole h hfits hshift (Nat.le_max_right _ _)] at hlarge
  · intro hdelivers
    refine ⟨node.text.length, fun n hn => ?_⟩
    rw [call_whole h hfits hshift hn]
    exact hdelivers

end PageNode

/-- Read calls return the text of a node if and only if the first of them returns all of it
and the offset within the page is then not smaller than any record. -/
theorem pageText_readsLikeOne_iff {pageShift : ℕ} (hshift : pageShift ≤ 30) {node : PageNode}
    (h : node.Plain) (hfits : node.Fits) {sizes : ℕ → ℕ} (hsizes : ∀ k, 0 < sizes k) :
    node.ReadsLikeOne (2 ^ pageShift) sizes ↔
      node.text.length ≤ sizes 0 ∧
        ∀ r ∈ node.records, r.length ≤ node.text.length % 2 ^ pageShift := by
  rw [PageNode.readsLikeOne_iff_delivers h hfits hshift]
  exact (PageNode.cutsFrom h hfits hshift).delivers_iff (Option.some_injective UInt8)
    (PageNode.unbordered h) hsizes

/-- The load average of a machine with three processes and no daemon. -/
def idleLoad : PageNode := .loadavg (.error Ctl.enotconn) 3

theorem idleLoad_text : idleLoad.text = cstr "0.00 0.00 0.00 1/3 0\n" := by
  decide +kernel

theorem idleLoad_fits : idleLoad.Fits := by
  unfold PageNode.Fits
  decide +kernel

theorem idleLoad_plain : idleLoad.Plain := trivial

theorem pageText_readsLikeOne_large : idleLoad.ReadsLikeOne (2 ^ 12) fun _ => 64 :=
  (pageText_readsLikeOne_iff (by decide) idleLoad_plain idleLoad_fits (fun _ => by decide)).mpr
    (by decide +kernel)

/-- Read in pieces of eight bytes, each piece is the beginning of the text. -/
theorem pageText_begins_again :
    (idleLoad.call (2 ^ 12) 0 8).1 = (cstr "0.00 0.0").map some ∧
      (idleLoad.call (2 ^ 12) 8 8).1 = (cstr "0.00 0.0").map some ∧
        ¬ idleLoad.ReadsLikeOne (2 ^ 12) fun _ => 8 := by
  refine ⟨by decide +kernel, by decide +kernel, ?_⟩
  rw [PageNode.readsLikeOne_iff_delivers idleLoad_plain idleLoad_fits (by decide)]
  intro hdelivers
  have hle := (PageNode.cutsFrom idleLoad_plain idleLoad_fits (by decide)).le_of_delivers
    (Option.some_injective UInt8) (PageNode.unbordered idleLoad_plain) (by decide) hdelivers
  rw [← PageNode.text, idleLoad_text] at hle
  exact absurd hle (by decide)

end ProcFS.Data
