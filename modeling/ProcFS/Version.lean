import ProcFS.Types

/-!
# ProcFS.Version — the spoofed Linux release

When a Linux release is spoofed, only one of the two kernel symbol nodes is
shown: `ksyms` up to release 2.5.47 and `kallsyms` after it.

* `procfsNodeVersionHidden_of_ne`: no node but the two is ever hidden.
-/

namespace ProcFS

/-- `procfs_linux_versions`, from index 1 on (index 0 is NULL). -/
def procfsLinuxVersions : List CString :=
  [cstr "6.12.0", cstr "6.6.0", cstr "6.1.0", cstr "5.15.0", cstr "5.10.0", cstr "2.5.47"]

/-- `procfs_spoofed_release`, as a function of `procfs_linux_version`. -/
def procfsSpoofedRelease (linuxVersion : Int32) : Option CString :=
  if 0 < linuxVersion then procfsLinuxVersions[linuxVersion.toNatClampNeg - 1]? else none

/-- `if (*a == '.') { a++; }`. -/
def skipDot : CString → CString
  | [] => []
  | c :: cs => if c = 46 then cs else c :: cs

/-- The loop of `procfs_vercmp`. `none` is a comparison that never ends: a
character that is neither a digit nor a dot is never passed. -/
def vercmpLoop : ℕ → CString → CString → Option Int32
  | 0, _, _ => none
  | n + 1, a, b =>
    if a = [] ∧ b = [] then some 0
    else
      let (na, a) := scanDigits 0 a
      let (nb, b) := scanDigits 0 b
      if na ≠ nb then some (na - nb) else vercmpLoop n (skipDot a) (skipDot b)

/-- `procfs_vercmp`. Each round that makes progress consumes a character, so
the two lengths bound the number of rounds. -/
def procfsVercmp (a b : CString) : Option Int32 := vercmpLoop (a.length + b.length + 1) a b

def procfsNodeVersionHidden (linuxVersion : Int32) (name : CString) : Bool :=
  match procfsSpoofedRelease linuxVersion with
  | none => false
  | some rel =>
    let isKsyms := name == cstr "ksyms"
    let isKallsyms := name == cstr "kallsyms"
    if !isKsyms && !isKallsyms then false
    else if (procfsVercmp rel (cstr "2.5.47")).any (· ≤ 0) then isKallsyms
    else isKsyms

/-- No other node is ever hidden. -/
theorem procfsNodeVersionHidden_of_ne {name : CString}
    (h : name ≠ cstr "ksyms" ∧ name ≠ cstr "kallsyms") (linuxVersion : Int32) :
    procfsNodeVersionHidden linuxVersion name = false := by
  unfold procfsNodeVersionHidden
  split
  · rfl
  · simp [h.1, h.2]

example : procfsNodeVersionHidden 6 (cstr "kallsyms") = true := by decide

end ProcFS
