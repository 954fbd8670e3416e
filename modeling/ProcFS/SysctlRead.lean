import ProcFS.Data.PageText
import ProcFS.SysctlName
import ProcFS.Text

/-!
# ProcFS.SysctlRead — reading a file of `/proc/sys`

The value of an oid is asked for by its name: from the daemon, or with `sysctlbyname` in the kernel
if the daemon does not answer, which serves fewer oids and shorter values. The bytes are printed
according to the type of the oid.

So a path leads to an oid, the oid to its name, the name to bytes and the bytes to a text.

* `sysctlText_bytes`: the bytes of a value are printed as the value.
* `sysctlRead_whole_iff`: which texts are handed on with their own length.
* `sysctl_path_value`: a file holds the value that the kernel keeps under its path.
-/

namespace ProcFS

open Lib
open Data (procfsBuildLinuxVersion)

/-! ## Where the bytes come from -/

/-- A UUID in lower case, as `uuid_unparse_lower` prints it. -/
structure Uuid where
  text : CString
  length_eq : text.length = 36

/-- What a read depends on besides the oids: `oid_fmt` by the address of the oid, the value and the
`CTLFLAG_KERN` of an oid by its name, whether the daemon answers, the release that is spoofed, and
the next random UUID. -/
structure SysctlEnv where
  oidFmt : UInt64 → Option CString
  value : CString → Option (List UInt8)
  ctlflagKern : CString → Bool
  answers : Bool
  linuxVersion : Int32
  uuid : Uuid

/-- `sysctlbyname` into a buffer: a value that is too long is an error. -/
def SysctlEnv.sysctlbyname (e : SysctlEnv) (name : CString) (cap : ℕ) : Option (List UInt8) :=
  (e.value name).filter fun v => v.length ≤ cap

/-- The daemon's `sysctlbyname`, into a payload. -/
def SysctlEnv.viaDaemon (e : SysctlEnv) (name : CString) (cap : ℕ) : Option (List UInt8) :=
  if e.answers then (e.sysctlbyname name 2048).map fun v => v.take cap else none

/-- The `sysctlbyname` of the kernel. -/
def SysctlEnv.viaKernel (e : SysctlEnv) (name : CString) (cap : ℕ) : Option (List UInt8) :=
  if e.ctlflagKern name then e.sysctlbyname name cap else none

/-- The `raw` bytes of `procfs_sysctl_read`, none if there is no value. -/
def SysctlEnv.raw (e : SysctlEnv) (name : CString) : List UInt8 :=
  match e.viaDaemon name 1024 with
  | some v => v
  | none => (e.viaKernel name 1024).getD []

/-- `EISDIR` and `ENOENT`. -/
def eisdir : Int32 := 21
def enoent : Int32 := 2

/-! ## The synthetic files -/

/-- Bytes without the NULs and newlines at their end. -/
def trimEnd (raw : List UInt8) : List UInt8 :=
  (raw.reverse.dropWhile fun b => b == 0 || b == 10).reverse

def toLower (b : UInt8) : UInt8 := if 65 ≤ b ∧ b ≤ 90 then b - 65 + 97 else b

/-- The id that `procfs_random_boot_id` prints: a new one if there is none. -/
def bootId (e : SysctlEnv) : CString :=
  let raw :=
    match (e.viaDaemon (cstr "kern.bootsessionuuid") 64).filter fun v => 0 < v.length with
    | some v => v
    | none => (e.viaKernel (cstr "kern.bootsessionuuid") 64).getD []
  if trimEnd raw = [] then e.uuid.text else untilNul ((trimEnd raw).map toLower)

def procfsRandomBootId (e : SysctlEnv) (outsz : ℕ) : Printed := snprintf outsz (bootId e ++ [10])

/-- `procfs_sysctl_read_synthetic`, up to the `procfs_copy_data`. -/
def procfsSysctlReadSynthetic (e : SysctlEnv) (objectid : UInt64) : Except Int32 Printed :=
  if objectid = 1 then .error eisdir
  else if objectid = 2 then .ok (procfsRandomBootId e 64)
  else if objectid = 5 then .ok (snprintf 64 (e.uuid.text ++ [10]))
  else if objectid = 3 ∨ objectid = 4 then .ok (snprintf 64 (fmtInt 256 ++ [10]))
  else .error enoent

/-! ## The files of oids -/

/-- `CTLTYPE_INT`, `CTLTYPE_STRING` and `CTLTYPE_QUAD`. -/
def ctltypeInt : UInt32 := 2
def ctltypeString : UInt32 := 3
def ctltypeQuad : UInt32 := 4

/-- `fmt[0] == a && fmt[1] == b`. -/
def fmtIs (a b : UInt8) (fmt : CString) : Bool := fmt.head? == some a && fmt[1]? == some b

/-- The `switch` on the type of an oid, for bytes that are not empty. -/
def sysctlText (kind : UInt32) (fmt : CString) (raw : List UInt8) : Printed :=
  if kind &&& 0xf = ctltypeString then
    snprintf 1100 (untilNul (if raw.getLast? = some 0 then raw.dropLast else raw) ++ [10])
  else if kind &&& 0xf = ctltypeInt then
    if 4 ≤ raw.length then
      if fmtIs 73 85 fmt then snprintf 1100 (fmtNat (u32At 0 raw).toNat ++ [10])
      else snprintf 1100 (fmtInt (u32At 0 raw).toInt32.toInt ++ [10])
    else ⟨[], 0⟩
  else if kind &&& 0xf = ctltypeQuad then
    if 8 ≤ raw.length then
      if fmtIs 81 85 fmt then snprintf 1100 (fmtNat (u64At 0 raw).toNat ++ [10])
      else snprintf 1100 (fmtInt (u64At 0 raw).toInt64.toInt ++ [10])
    else ⟨[], 0⟩
  else ⟨[], 0⟩

/-- The texts of an oid of the spoofed identity, by its name. -/
def spoofedText (linuxVersion : Int32) (name : CString) : Option CString :=
  match procfsSpoofedRelease linuxVersion with
  | none => none
  | some rel =>
    if name = cstr "kern.ostype" then some (cstr "Linux\n")
    else if name = cstr "kern.osrelease" then some (rel ++ [10])
    else if name = cstr "kern.version" then procfsBuildLinuxVersion linuxVersion
    else none

/-- `procfs_sysctl_read`, up to the `procfs_copy_data`. -/
def procfsSysctlRead (roots : List SysctlOid) (e : SysctlEnv) (objectid : UInt64) :
    Except Int32 Printed :=
  if procfsSynIs objectid then procfsSysctlReadSynthetic e objectid
  else if procfsSysctlIsNode roots objectid then .error eisdir
  else
    match procfsSysctlBuildName objectid procfsCtlNamemax [] roots with
    | none => .error enoent
    | some name =>
      match spoofedText e.linuxVersion name with
      | some text => .ok (snprintf 512 text)
      | none =>
        if e.raw name = [] then .ok ⟨[], 0⟩
        else
          match derefList objectid roots with
          | none => .error enoent
          | some oid => .ok (sysctlText oid.oidKind ((e.oidFmt objectid).getD []) (e.raw name))

/-! ## Values -/

/-- A value of one of the types that have a text. -/
inductive SysctlValue where
  | int (v : Int32)
  | uint (v : UInt32)
  | quad (v : Int64)
  | uquad (v : UInt64)
  | string (s : CString)
deriving DecidableEq, Repr

namespace SysctlValue

/-- The bytes that `sysctlbyname` returns for it. -/
def bytes : SysctlValue → List UInt8
  | int v => leBytes 4 v.toUInt32.toNat
  | uint v => leBytes 4 v.toNat
  | quad v => leBytes 8 v.toUInt64.toNat
  | uquad v => leBytes 8 v.toNat
  | string s => terminated s

/-- It is of the type that an oid declares. -/
def Suits (kind : UInt32) (fmt : CString) : SysctlValue → Prop
  | int _ => kind &&& 0xf = ctltypeInt ∧ fmtIs 73 85 fmt = false
  | uint _ => kind &&& 0xf = ctltypeInt ∧ fmtIs 73 85 fmt = true
  | quad _ => kind &&& 0xf = ctltypeQuad ∧ fmtIs 81 85 fmt = false
  | uquad _ => kind &&& 0xf = ctltypeQuad ∧ fmtIs 81 85 fmt = true
  | string s => kind &&& 0xf = ctltypeString ∧ 0 ∉ s ∧ s.length < 1024

/-- How it is printed. -/
def text : SysctlValue → CString
  | int v => fmtInt v.toInt ++ [10]
  | uint v => fmtNat v.toNat ++ [10]
  | quad v => fmtInt v.toInt ++ [10]
  | uquad v => fmtNat v.toNat ++ [10]
  | string s => s ++ [10]

/-- A program that knows the type of the oid reads the text. -/
def read (kind : UInt32) (fmt : CString) (text : CString) : Option SysctlValue :=
  if kind &&& 0xf = ctltypeString then some (string text.dropLast)
  else if kind &&& 0xf = ctltypeInt then
    (readInt text.dropLast).map fun z =>
      if fmtIs 73 85 fmt then uint (UInt32.ofNat z.toNat) else int (Int32.ofInt z)
  else if kind &&& 0xf = ctltypeQuad then
    (readInt text.dropLast).map fun z =>
      if fmtIs 81 85 fmt then uquad (UInt64.ofNat z.toNat) else quad (Int64.ofInt z)
  else none

variable {kind : UInt32} {fmt : CString}

theorem readInt_nat (n : ℕ) : readInt (fmtNat n) = some (n : ℤ) := by
  have hint : fmtNat n = fmtInt n := by
    rw [fmtInt, if_neg (by omega)]
    rfl
  rw [hint, readInt_fmtInt]

/-- The types are different. -/
theorem ctltypes_ne : ctltypeInt ≠ ctltypeString ∧ ctltypeQuad ≠ ctltypeString ∧
    ctltypeQuad ≠ ctltypeInt := by
  decide

/-- The text of a value is read back. -/
theorem read_text {v : SysctlValue} (h : v.Suits kind fmt) : read kind fmt v.text = some v := by
  rcases ctltypes_ne with ⟨hint, hquad, hquadInt⟩
  cases v with
  | int v =>
    rcases h with ⟨hkind, hfmt⟩
    rw [read, if_neg (hkind ▸ hint), if_pos hkind, text, List.dropLast_concat, readInt_fmtInt]
    simp [hfmt]
  | uint v =>
    rcases h with ⟨hkind, hfmt⟩
    rw [read, if_neg (hkind ▸ hint), if_pos hkind, text, List.dropLast_concat, readInt_nat]
    simp [hfmt]
  | quad v =>
    rcases h with ⟨hkind, hfmt⟩
    rw [read, if_neg (hkind ▸ hquad), if_neg (hkind ▸ hquadInt), if_pos hkind, text,
      List.dropLast_concat, readInt_fmtInt]
    simp [hfmt]
  | uquad v =>
    rcases h with ⟨hkind, hfmt⟩
    rw [read, if_neg (hkind ▸ hquad), if_neg (hkind ▸ hquadInt), if_pos hkind, text,
      List.dropLast_concat, readInt_nat]
    simp [hfmt]
  | string s =>
    rw [read, if_pos h.1, text, List.dropLast_concat]

theorem length_bytes {v : SysctlValue} (h : v.Suits kind fmt) : v.bytes.length ≤ 1024 := by
  cases v with
  | string s =>
    rw [bytes, length_terminated]
    exact h.2.2
  | _ =>
    rw [bytes, length_leBytes]
    decide

theorem bytes_ne_nil (v : SysctlValue) : v.bytes ≠ [] := by
  intro h
  have hlen := congrArg List.length h
  cases v with
  | string s =>
    rw [bytes, length_terminated] at hlen
    cases hlen
  | _ =>
    rw [bytes, length_leBytes] at hlen
    cases hlen

theorem length_text {v : SysctlValue} (h : v.Suits kind fmt) : v.text.length < 1100 := by
  have hline : ∀ {line : CString}, line.length < 1024 → (line ++ [10]).length < 1100 := by
    intro line hlen
    rw [List.length_append, List.length_singleton]
    omega
  have hnat : ∀ n, n < 2 ^ 64 → (fmtNat n).length ≤ 20 :=
    fun n hn => length_fmtNat_le_of_lt (by decide) (by omega)
  cases v with
  | int v =>
    have hlen := length_fmtInt_int v
    exact hline (by omega)
  | uint v =>
    have hlt := v.toNat_lt
    exact hline (lt_of_le_of_lt (hnat _ (by omega)) (by decide))
  | quad v =>
    have hlt := v.toInt_lt
    have hge := v.le_toInt
    have hlen : (fmtInt v.toInt).length ≤ 20 + 1 := length_fmtInt_of_natAbs (by decide) (by omega)
    exact hline (by omega)
  | uquad v => exact hline (lt_of_le_of_lt (hnat _ v.toNat_lt) (by decide))
  | string s => exact hline h.2.2

theorem u32At_leBytes (v : UInt32) : u32At 0 (leBytes 4 v.toNat) = v := by
  have hfield := fieldAt_leBytes (w := 4) v.toNat_lt []
  rw [List.append_nil] at hfield
  rw [u32At, hfield, UInt32.ofNat_toNat]

theorem u64At_leBytes (v : UInt64) : u64At 0 (leBytes 8 v.toNat) = v := by
  have hfield := fieldAt_leBytes (w := 8) v.toNat_lt []
  rw [List.append_nil] at hfield
  rw [u64At, hfield, UInt64.ofNat_toNat]

/-- An oid that has a value is no directory. -/
theorem Suits.leaf {v : SysctlValue} (h : v.Suits kind fmt) : kindIsNode kind = false := by
  have htype : kind &&& 0xf = ctltypeInt ∨ kind &&& 0xf = ctltypeQuad ∨
      kind &&& 0xf = ctltypeString := by
    cases v with
    | int v | uint v => exact Or.inl h.1
    | quad v | uquad v => exact Or.inr (Or.inl h.1)
    | string s => exact Or.inr (Or.inr h.1)
  rw [kindIsNode]
  rcases htype with htype | htype | htype <;> rw [htype] <;> rfl

/-- The bytes of a value are printed as the value. -/
theorem sysctlText_bytes {v : SysctlValue} (h : v.Suits kind fmt) :
    (sysctlText kind fmt v.bytes).Holds v.text := by
  have hfits := snprintf_holds (length_text h)
  rcases ctltypes_ne with ⟨hint, hquad, hquadInt⟩
  cases v with
  | int v =>
    rcases h with ⟨hkind, hfmt⟩
    rw [sysctlText, if_neg (hkind ▸ hint), if_pos hkind, if_pos (by simp [bytes]), hfmt, bytes,
      u32At_leBytes]
    exact hfits
  | uint v =>
    rcases h with ⟨hkind, hfmt⟩
    rw [sysctlText, if_neg (hkind ▸ hint), if_pos hkind, if_pos (by simp [bytes]), hfmt, bytes,
      u32At_leBytes]
    exact hfits
  | quad v =>
    rcases h with ⟨hkind, hfmt⟩
    rw [sysctlText, if_neg (hkind ▸ hquad), if_neg (hkind ▸ hquadInt), if_pos hkind,
      if_pos (by simp [bytes]), hfmt, bytes, u64At_leBytes]
    exact hfits
  | uquad v =>
    rcases h with ⟨hkind, hfmt⟩
    rw [sysctlText, if_neg (hkind ▸ hquad), if_neg (hkind ▸ hquadInt), if_pos hkind,
      if_pos (by simp [bytes]), hfmt, bytes, u64At_leBytes]
    exact hfits
  | string s =>
    -- the NUL at the end is dropped first
    rw [sysctlText, if_pos h.1, bytes, terminated, List.getLast?_concat, if_pos rfl,
      List.dropLast_concat, untilNul_of_notMem h.2.1]
    exact hfits

end SysctlValue

/-- Whoever serves it, the bytes of a value arrive as they are. -/
theorem SysctlEnv.raw_eq {e : SysctlEnv} {name : CString} {v : List UInt8}
    (hvalue : e.value name = some v) (hlen : v.length ≤ 1024)
    (hserved : e.answers = true ∨ e.ctlflagKern name = true) : e.raw name = v := by
  have hfilter : ∀ cap, 1024 ≤ cap → e.sysctlbyname name cap = some v := by
    intro cap hcap
    rw [SysctlEnv.sysctlbyname, hvalue, Option.filter_some, if_pos (by simpa using hlen.trans hcap)]
  cases hanswers : e.answers with
  | true =>
    rw [SysctlEnv.raw, SysctlEnv.viaDaemon, hanswers, if_pos rfl, hfilter 2048 (by decide),
      Option.map_some, List.take_of_length_le hlen]
  | false =>
    have hkern : e.ctlflagKern name = true := by
      rcases hserved with hserved | hserved
      · rw [hanswers] at hserved
        cases hserved
      · exact hserved
    rw [SysctlEnv.raw, SysctlEnv.viaDaemon, hanswers]
    simp [SysctlEnv.viaKernel, hkern, hfilter 1024 (by decide)]

/-! ## Texts that are cut -/

theorem SysctlEnv.length_raw (e : SysctlEnv) (name : CString) : (e.raw name).length ≤ 1024 := by
  rw [SysctlEnv.raw]
  cases hdaemon : e.viaDaemon name 1024 with
  | some v =>
    rw [SysctlEnv.viaDaemon, Option.ite_none_right_eq_some, Option.map_eq_some_iff] at hdaemon
    rcases hdaemon with ⟨-, u, -, rfl⟩
    exact (List.length_take_le 1024 u)
  | none =>
    cases hkernel : e.viaKernel name 1024 with
    | none => exact Nat.zero_le _
    | some v =>
      rw [SysctlEnv.viaKernel, Option.ite_none_right_eq_some, SysctlEnv.sysctlbyname,
        Option.filter_eq_some_iff] at hkernel
      simpa using hkernel.2.2

theorem length_untilNul_le (bs : List UInt8) : (untilNul bs).length ≤ bs.length :=
  (List.takeWhile_prefix _).length_le

/-- Every value that fits the buffer for the bytes is printed whole. -/
theorem sysctlText_whole (kind : UInt32) (fmt : CString) {raw : List UInt8}
    (hraw : raw.length ≤ 1024) : (sysctlText kind fmt raw).Whole := by
  have hline : ∀ {line : CString}, line.length ≤ 1024 → (snprintf 1100 (line ++ [10])).Whole := by
    intro line hlen
    exact (snprintf_line_whole_iff (by decide) line).mpr (by omega)
  have hempty : Printed.Whole ⟨[], 0⟩ := rfl
  have hnat : ∀ n, n < 2 ^ 64 → (fmtNat n).length ≤ 1024 := by
    intro n hn
    exact (length_fmtNat_le_of_lt (show 0 < 20 by decide) (by omega)).trans (by decide)
  have hint : ∀ z : ℤ, z.natAbs ≤ 2 ^ 63 → (fmtInt z).length ≤ 1024 := by
    intro z hz
    exact (length_fmtInt_of_natAbs (show 0 < 20 by decide) (by omega)).trans (by decide)
  have hnat32 := (u32At 0 raw).toNat_lt
  have hint32 := (u32At 0 raw).toInt32.toInt_lt
  have hint32' := (u32At 0 raw).toInt32.le_toInt
  have hint64 := (u64At 0 raw).toInt64.toInt_lt
  have hint64' := (u64At 0 raw).toInt64.le_toInt
  -- by the type of the oid, the length of the bytes and the sign
  unfold sysctlText
  split
  · refine hline ((length_untilNul_le _).trans ?_)
    split
    · rw [List.length_dropLast]
      omega
    · exact hraw
  · split
    · split
      · split
        · exact hline (hnat _ (by omega))
        · exact hline (hint _ (by omega))
      · exact hempty
    · split
      · split
        · split
          · exact hline (hnat _ (u64At 0 raw).toNat_lt)
          · exact hline (hint _ (by omega))
        · exact hempty
      · exact hempty

theorem length_of_spoofedRelease {linuxVersion : Int32} {rel : CString}
    (h : procfsSpoofedRelease linuxVersion = some rel) : rel.length ≤ 6 := by
  rw [procfsSpoofedRelease, Option.ite_none_right_eq_some] at h
  have hall : ∀ r ∈ procfsLinuxVersions, r.length ≤ 6 := by decide
  exact hall rel (List.mem_of_getElem? h.2)

theorem spoofedText_whole {linuxVersion : Int32} {name text : CString}
    (h : spoofedText linuxVersion name = some text) : (snprintf 512 text).Whole := by
  rw [snprintf_whole_iff (by decide)]
  rw [spoofedText] at h
  cases hrel : procfsSpoofedRelease linuxVersion with
  | none =>
    rw [hrel] at h
    cases h
  | some rel =>
    have hlen := length_of_spoofedRelease hrel
    rw [hrel] at h
    simp only at h
    -- the system, the release, and the version with the release in it
    split at h
    · cases h
      decide
    · split at h
      · cases h
        rw [List.length_append, List.length_singleton]
        omega
      · rw [Option.ite_none_right_eq_some, procfsBuildLinuxVersion, hrel, Option.map_some] at h
        cases h.2
        have hfront : (cstr "Linux version ").length = 14 := rfl
        have hback :
            (cstr " (builder@linux-build-env) (gcc version 10.3.0 (Ubuntu 10.3.0-1ubuntu1)) "
              ).length = 73 := by
          decide
        have hend : (cstr "#1 SMP PREEMPT_DYNAMIC Sat Dec 14 12:00:00 UTC 2024\n").length = 52 := by
          decide
        simp only [List.length_append, hfront, hback, hend]
        omega

/-- Whatever is read below `/proc/sys`, and whatever value comes from the daemon or the kernel, the
length that goes to `procfs_copy_data` is that of the text in the buffer, unless the id of the boot
session has more than 62 bytes. -/
theorem sysctlRead_whole_iff (roots : List SysctlOid) (e : SysctlEnv) {a : UInt64} {b : Printed}
    (h : procfsSysctlRead roots e a = .ok b) : b.Whole ↔ a ≠ 2 ∨ (bootId e).length ≤ 62 := by
  have hempty : Printed.Whole ⟨[], 0⟩ := rfl
  rw [procfsSysctlRead] at h
  split at h
  · -- the synthetic files
    rw [procfsSysctlReadSynthetic] at h
    split at h
    · cases h
    · split at h
      · rename_i hboot
        cases h
        rw [procfsRandomBootId, snprintf_line_whole_iff (by decide), hboot]
        simp only [ne_eq, not_true_eq_false, false_or]
        omega
      · rename_i hne
        refine iff_of_true ?_ (Or.inl hne)
        split at h
        · cases h
          rw [snprintf_line_whole_iff (by decide), e.uuid.length_eq]
          decide
        · split at h
          · cases h
            exact (snprintf_line_whole_iff (by decide) _).mpr (by decide)
          · cases h
  · rename_i hsyn
    have hne : a ≠ 2 := by
      rintro rfl
      exact hsyn (by decide)
    refine iff_of_true ?_ (Or.inl hne)
    split at h
    · cases h
    · split at h
      · cases h
      · split at h
        · rename_i hspoof
          cases h
          exact spoofedText_whole hspoof
        · split at h
          · cases h
            exact hempty
          · split at h
            · cases h
            · cases h
              exact sysctlText_whole _ _ (e.length_raw _)

/-- A daemon that answers everything with the same bytes. -/
def constantEnv (v : List UInt8) : SysctlEnv where
  oidFmt _ := none
  value _ := some v
  ctlflagKern _ := false
  answers := true
  linuxVersion := 0
  uuid := ⟨List.replicate 36 48, rfl⟩

/-- A session id of 64 letters: one byte behind the buffer goes to the reader. -/
theorem sysctlRead_whole_iff_long :
    ¬ (snprintf 64 (List.replicate 64 97 ++ [10])).Whole := by
  have hread : procfsSysctlRead [] (constantEnv (List.replicate 64 97)) 2 =
      .ok (snprintf 64 (List.replicate 64 97 ++ [10])) := by
    decide +kernel
  rw [sysctlRead_whole_iff [] _ hread]
  decide +kernel

/-! ## From the path to the text -/

section Path

variable {roots : List SysctlOid}

theorem mem_addrsList_of_derefList {a : UInt64} {oid : SysctlOid}
    (h : derefList a roots = some oid) :
    a ∈ addrsList roots := by
  rw [derefList_eq a 0] at h
  rcases Option.map_eq_some_iff.mp h with ⟨x, hfind, rfl⟩
  have haddr : x.2.addr = a := by simpa using List.find?_some hfind
  rw [← map_visitedList 0, ← haddr]
  exact List.mem_map.mpr ⟨x, List.mem_of_find?_eq_some hfind, rfl⟩

/-- A file of `/proc/sys` holds the value that the kernel keeps under its path: whether the daemon
answers or not, all of its text is printed, and a program reads the value back. -/
theorem sysctl_path_value (honce : OidsOnce roots) (haddrs : OidsAboveSyn roots)
    (hnamed : OidsNamed roots) {e : SysctlEnv} {path : List CString} {a : UInt64} {oid : SysctlOid}
    {v : SysctlValue} (hwalk : sysctlWalk roots 0 path = some a)
    (hoid : derefList a roots = some oid) (hlen : (mibName path).length < 256)
    (hsuits : v.Suits oid.oidKind ((e.oidFmt a).getD []))
    (hvalue : e.value (mibName path) = some v.bytes)
    (hserved : e.answers = true ∨ e.ctlflagKern (mibName path) = true)
    (hspoof : spoofedText e.linuxVersion (mibName path) = none) :
    procfsSysctlRead roots e a = .ok ⟨v.text, v.text.length⟩ ∧
      SysctlValue.read oid.oidKind ((e.oidFmt a).getD []) v.text = some v := by
  have hreal := mem_addrsList_of_derefList hoid
  rcases haddrs.mem hreal with ⟨hne, hsyn⟩
  have hname := (oidAt_of_path honce haddrs hnamed hwalk hreal hlen).buildName honce hlen
  have hleaf : procfsSysctlIsNode roots a = false := by
    rw [procfsSysctlIsNode, if_neg hne, hsyn, hoid, Option.any_some, hsuits.leaf]
    rfl
  have hraw : e.raw (mibName path) = v.bytes :=
    SysctlEnv.raw_eq hvalue (SysctlValue.length_bytes hsuits) hserved
  have htext : sysctlText oid.oidKind ((e.oidFmt a).getD []) v.bytes = ⟨v.text, v.text.length⟩ :=
    SysctlValue.sysctlText_bytes hsuits
  refine ⟨?_, SysctlValue.read_text hsuits⟩
  simp only [procfsSysctlRead, hsyn, hleaf, hname, hspoof, hraw, v.bytes_ne_nil, hoid, htext,
    Bool.false_eq_true, if_false]

end Path

/-- `kern.ostype` of a Darwin kernel, by its Linux path. -/
theorem sysctl_path_value_ostype :
    procfsSysctlRead kernOstype (constantEnv (terminated (cstr "Darwin"))) 8192 =
        .ok ⟨cstr "Darwin\n", 7⟩ ∧
      SysctlValue.read 3 [] (cstr "Darwin\n") = some (.string (cstr "Darwin")) := by
  have hwalk : sysctlWalk kernOstype 0 [cstr "kernel", cstr "ostype"] = some 8192 := by decide
  have hoid : derefList 8192 kernOstype =
      some (.mk 8192 (some ⟨cstr "ostype", ostype_fits⟩) 3 1 none) := rfl
  exact sysctl_path_value (e := constantEnv (terminated (cstr "Darwin")))
    (v := .string (cstr "Darwin"))
    kernOstype_once kernOstype_above kernOstype_named hwalk hoid (by decide)
    ⟨by decide, by decide, by decide⟩ rfl (Or.inl rfl) rfl

end ProcFS
