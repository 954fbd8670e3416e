import ProcFS.Reading
import ProcFS.Resolve
import ProcFS.SysctlViews

/-!
# ProcFS.Agreement — listed names are resolved

`readdir` and `lookup` enumerate the same names, each in its own way. Every listed
name is resolved to the node it was listed for as long as the number or oid name it
was printed from can be read back.

* `childEntries_match_iff`: which entries of a child are resolved to their file ids.
* `matches_oid_iff`: which children of a sysctl directory are found under their names.
* `listed_names_resolve_iff`: when every listed name is resolved to the node it was listed for.
-/

namespace ProcFS

/-! ## Numbers read back -/

/-- A number printed with a minus sign is not read as a number. -/
theorem procfsAtoi_fmtInt_neg {n : ℤ} (h : n < 0) : procfsAtoi (fmtInt n) = (-1, fmtInt n) := by
  have hname : fmtInt n = 45 :: fmtNat n.natAbs := by
    rw [fmtInt, if_pos h]
    rfl
  have hscan : scanDigits 0 (fmtInt n) = (0, fmtInt n) := by
    rw [hname]
    exact scanDigits_stop rfl 0
  simp only [procfsAtoi, hscan, if_true]

/-- `"%lld"` prints a thread id as a signed number. -/
theorem toInt_toInt64 (t : UInt64) :
    t.toInt64.toInt = if t.toNat < 2 ^ 63 then (t.toNat : ℤ) else t.toNat - 2 ^ 64 := by
  have hint : t.toInt64.toInt = t.toBitVec.toInt := rfl
  have hnat : t.toBitVec.toNat = t.toNat := rfl
  rw [hint, BitVec.toInt_eq_toNat_cond, hnat]
  split <;> split <;> omega

/-- The thread id that the printed name of a thread id is read as. An id from
`2^63` on is printed as a negative number; the others are read modulo `2^32`, as a
signed number, and `-1` stands for no number. -/
def threadRead (t : UInt64) : Option UInt64 :=
  if t.toNat < 2 ^ 63 ∧ Int32.ofNat t.toNat ≠ -1 then
    some (objectidOfInt (Int32.ofNat t.toNat))
  else none

/-- A thread id below `2^31` is read back. -/
theorem threadRead_of_lt {t : UInt64} (h : t.toNat < 2 ^ 31) : threadRead t = some t := by
  have hread : (Int32.ofNat t.toNat).toInt = t.toNat := Int32.toInt_ofNat_of_lt h
  have hne : Int32.ofNat t.toNat ≠ -1 := by
    intro heq
    have hminus : (-1 : Int32).toInt = -1 := rfl
    rw [heq] at hread
    omega
  have hsame : (Int32.ofNat t.toNat).toInt64 = t.toInt64 := by
    apply Int64.toInt_inj.mp
    rw [Int32.toInt_toInt64, hread, toInt_toInt64, if_pos (by omega)]
  rw [threadRead, if_pos ⟨by omega, hne⟩, objectidOfInt, hsame]
  rfl

/-- The next thread id is not: its name is read as a negative number. -/
example : threadRead (2 ^ 31) = some (2 ^ 64 - 2 ^ 31) := by decide

/-! ## What each kind of entry is resolved to -/

/-- The search for a name ends with a node of that file id. -/
def Matches (w : World) (c : Caller) (dir : Pfsnode) (name : CString) (fileId : UInt64) : Prop :=
  ∃ s id, lookupMatch w c dir name = .ok (some (s, id)) ∧ id.fileId = fileId

variable {s : Pfssnode} {e : Entry}

section

variable {w : World} {c : Caller} {build : ℕ} {next : UInt16} {dir : Pfsnode}

/-- An entry of its own is resolved to what it was listed for. -/
theorem matches_static (htree : w.tree = procfsStructureInit build next) (hdir : Placed w.tree dir)
    (hs : s ∈ w.tree.children dir.nodeStructureNode)
    (hshown : procfsNodeVersionHidden w.linuxVersion s.psnName = false)
    (hdots : s.psnName ≠ cstr "." ∧ s.psnName ≠ cstr "..") :
    Matches w c dir s.psnName (staticId w dir s).fileId := by
  have hlayout := layoutOk_of_mem htree hdir.mem
  have hdot := (hlayout.site s hs).noDot_of_name hdots rfl
  refine ⟨s, _, lookupMatch_named htree hdir.mem hs hshown, ?_⟩
  unfold staticId
  cases htype : s.psnNodeType with
  | dirthis => simp [htype, PfsType.isDot] at hdot
  | dirparent => simp [htype, PfsType.isDot] at hdot
  | _ => rfl

variable {p : Proc}

/-- A listed process is live and visible, and listed under its name. -/
theorem mem_pidEntries (htype : s.psnNodeType = .proc ∨ s.psnNodeType = .procnamedir)
    (he : e ∈ pidEntries w c s) :
    ∃ p, w.procs.procFind p.pPid = some p ∧ pidVisible (scanCred c) p = true ∧
      e.fileId = procfsGetFileid p.pPid prnodeNoObjectid s.psnBaseNodeId ∧
      e.name = processEntryName s.psnNodeType p := by
  rcases List.mem_filterMap.mp he with ⟨pid, hpid, he⟩
  rcases Option.map_eq_some_iff.mp he with ⟨name, hname, rfl⟩
  have hfound : ∃ p, w.procs.procFind pid = some p ∧ pidVisible (scanCred c) p = true := by
    unfold procfsGetPids at hpid
    split at hpid
    · exact getPidsLoop_visible hpid
    · cases hpid
  rcases hfound with ⟨p, hlive, hvisible⟩
  have hpPid : p.pPid = pid := w.procs.pid_eq pid p hlive
  subst hpPid
  refine ⟨p, hlive, hvisible, rfl, ?_⟩
  rcases htype with h | h <;> simp [pidName, h, hlive] at hname <;>
    simp [processEntryName, h, ← hname]

/-- The entries of a child that stands for many are called after processes, or are numbers. -/
theorem childEntries_numbered (hlisting : s.psnNodeType.isListing = true)
    (he : e ∈ childEntries w c dir s) :
    (∃ p, w.procs.procFind p.pPid = some p ∧ e.name = processEntryName s.psnNodeType p) ∨
      ∃ n : ℤ, n.natAbs < 10 ^ 20 ∧ e.name = fmtInt n := by
  have hpids : s.psnNodeType = .proc ∨ s.psnNodeType = .procnamedir → e ∈ pidEntries w c s →
      ∃ p, w.procs.procFind p.pPid = some p ∧ e.name = processEntryName s.psnNodeType p := by
    intro htype he
    rcases mem_pidEntries htype he with ⟨p, hlive, -, -, hname⟩
    exact ⟨p, hlive, hname⟩
  unfold childEntries at he
  split at he
  · cases he
  · rename_i htype
    exact Or.inl (hpids (Or.inl htype) he)
  · rename_i htype
    exact Or.inl (hpids (Or.inr htype) he)
  · -- a thread, by its id
    rcases List.mem_map.mp he with ⟨t, -, rfl⟩
    have hlt : t.toInt64.toInt < 2 ^ 63 := Int64.toInt_lt _
    have hge : -2 ^ 63 ≤ t.toInt64.toInt := Int64.le_toInt _
    exact Or.inr ⟨_, by omega, rfl⟩
  · -- a descriptor
    split at he
    · cases he
    · rcases List.mem_map.mp he with ⟨fd, -, rfl⟩
      have hlt : fd.toInt < 2 ^ 31 := Int32.toInt_lt fd
      have hge : -2 ^ 31 ≤ fd.toInt := Int32.le_toInt fd
      exact Or.inr ⟨_, by omega, rfl⟩
  · rcases PfsType.isListing_iff.mp hlisting with (h | h) | h | h <;> contradiction

/-- A listed process is resolved to its node. -/
theorem matches_pid (htree : w.tree = procfsStructureInit build next) (hdir : Placed w.tree dir)
    (hisdir : dir.IsDir w.oids) (hs : s ∈ w.tree.children dir.nodeStructureNode)
    (htype : s.psnNodeType = .proc ∨ s.psnNodeType = .procnamedir) (he : e ∈ pidEntries w c s) :
    Matches w c dir e.name e.fileId := by
  rcases mem_pidEntries htype he with ⟨p, hlive, hvisible, hfile, hname⟩
  have hlayout := layoutOk_of_mem htree hdir.mem
  -- the directory lies outside the processes and has no object id to pass on
  have hobject : dir.nodeId.nodeidObjectid = prnodeNoObjectid :=
    hdir.objectid_eq (hdir.allocvp_of_vdir hisdir.vdir) ((hlayout.site s hs).proc_flags htype).2.2
  have haccess : ¬ (c.checkAccess = true ∧ procfsCheckCanAccessProcess c.cred p ≠ none) := by
    rintro ⟨hcheck, hrefused⟩
    apply hrefused
    simpa [scanCred, hcheck, pidVisible] using hvisible
  rw [hname, hfile]
  refine ⟨s, ⟨p.pPid, dir.nodeId.nodeidObjectid, s.psnBaseNodeId⟩, ?_, ?_⟩
  · rw [lookupMatch_process htree hdir.mem hs htype hlive, if_neg haccess]
  · rw [hobject]
    rfl

/-- Where the directory of a live process is visible, the access check of lookup
passes too. -/
theorem access_of_dirVisible (hlive : w.procs.procFind dir.nodeId.nodeidPid = some p)
    (hvisible : dirVisible w c dir = true) :
    ¬ (c.checkAccess = true ∧ procfsCheckCanAccessProcess c.cred p ≠ none) := by
  rintro ⟨hcheck, hrefused⟩
  have hpid : dir.nodeId.nodeidPid ≠ prnodeNoPid := by
    intro heq
    rw [heq, ProcTable.procFind_noPid] at hlive
    cases hlive
  simp [dirVisible, hpid, hcheck, procfsCheckCanAccessProcPid, hlive, hrefused] at hvisible

/-- Lookup knows the threads that readdir lists. -/
theorem hasThread_eq {pid : Int32} (hlive : w.procs.procFind pid = some p) (t : UInt64) :
    hasThread w p t = decide (t ∈ listedThreads w pid) := by
  simp only [hasThread, listedThreads, hlive]
  cases procfsGetThreadIdsForTask w.mem p <;> simp

variable (htree : w.tree = procfsStructureInit build next)
  (hdir : dir.nodeStructureNode ∈ w.tree.nodes)
  (hs : s ∈ w.tree.children dir.nodeStructureNode)
include htree hdir

/-- The printed number of a thread or descriptor is not the name of a child. -/
theorem fmtInt_ne_psnName (n : ℤ) :
    ∀ s ∈ w.tree.children dir.nodeStructureNode, fmtInt n ≠ s.psnName := by
  have hlayout := layoutOk_of_mem htree hdir
  intro s hs heq
  by_cases hneg : n < 0
  · have hhead := (hlayout.site s hs).name_head
    rw [← heq, fmtInt, if_pos hneg] at hhead
    exact absurd hhead (by simp [cstr])
  · have hhead := fmtNat_head_isDigit n.natAbs []
    rw [List.append_nil, ← fmtInt_of_nonneg (not_lt.mp hneg)] at hhead
    rw [htree] at hdir hs
    exact ne_psnName_of_digit hdir hhead s hs heq

include hs

/-- The name of a thread is resolved to the thread it is read as, if there is such
a thread. -/
theorem lookupMatch_thread (htype : s.psnNodeType = .thread)
    (hlive : w.procs.procFind dir.nodeId.nodeidPid = some p) (hvisible : dirVisible w c dir = true)
    (t : UInt64) :
    lookupMatch w c dir (fmtInt t.toInt64.toInt) =
      match threadRead t with
      | some t' =>
        if t' ∈ listedThreads w dir.nodeId.nodeidPid then
          .ok (some (s, ⟨dir.nodeId.nodeidPid, t', s.psnBaseNodeId⟩))
        else .error .ENOENT
      | none => .ok none := by
  have hfd : s.psnNodeType ≠ .fd := by rw [htype]; decide
  have hnamedir : s.psnNodeType ≠ .procnamedir := by rw [htype]; decide
  rw [lookupMatch_number htree hdir hs (by rw [htype]; rfl) (fmtInt_ne_psnName htree hdir _),
    numberMatch, if_neg hfd, lookupNumber, toInt_toInt64]
  by_cases hbig : t.toNat < 2 ^ 63
  · -- read modulo `2^32`
    have hread := @procfsAtoi_fmtNat t.toNat [] rfl
    rw [List.append_nil] at hread
    have hname : fmtInt (t.toNat : ℤ) = fmtNat t.toNat := fmtInt_of_nonneg (Int.natCast_nonneg _)
    rw [if_pos hbig, hname, hread, if_neg (by simp)]
    by_cases hminus : Int32.ofNat t.toNat = -1
    · simp [threadRead, hminus]
    · have hhas := fun t' => hasThread_eq hlive t'
      simp only [threadRead, hbig, ne_eq, hminus, not_false_eq_true, and_self, if_true, lookupProc,
        procMatchId, htype, hlive, reduceCtorEq, false_and, if_false, hhas, decide_eq_true_eq,
        true_and]
      have haccess := access_of_dirVisible hlive hvisible
      simp only [ne_eq] at haccess
      rw [if_neg haccess]
      split <;> simp_all
  · -- printed with a minus sign
    have hneg : (t.toNat : ℤ) - 2 ^ 64 < 0 := by
      have hlt := t.toNat_lt
      omega
    have hne : fmtInt ((t.toNat : ℤ) - 2 ^ 64) ≠ [] := by
      rw [fmtInt, if_pos hneg]
      simp [cstr]
    rw [if_neg hbig, procfsAtoi_fmtInt_neg hneg, if_pos ⟨hnamedir, hne⟩, threadRead,
      if_neg fun h => hbig h.1]

theorem matches_thread_iff (htype : s.psnNodeType = .thread)
    (hlive : w.procs.procFind dir.nodeId.nodeidPid = some p) (hvisible : dirVisible w c dir = true)
    (t : UInt64) :
    Matches w c dir (fmtInt t.toInt64.toInt)
        (procfsGetFileid dir.nodeId.nodeidPid t s.psnBaseNodeId) ↔
      ∃ t' ∈ listedThreads w dir.nodeId.nodeidPid, threadRead t = some t' ∧
        procfsGetFileid dir.nodeId.nodeidPid t' s.psnBaseNodeId =
          procfsGetFileid dir.nodeId.nodeidPid t s.psnBaseNodeId := by
  rw [Matches, lookupMatch_thread htree hdir hs htype hlive hvisible t]
  cases hread : threadRead t with
  | none => simp
  | some t' =>
    by_cases hmem : t' ∈ listedThreads w dir.nodeId.nodeidPid
    · simp [hmem, PfsId.fileId]
    · simp [hmem]

/-- The name of an open descriptor is resolved to it unless it is negative. -/
theorem lookupMatch_fd (htype : s.psnNodeType = .fd)
    (hlive : w.procs.procFind dir.nodeId.nodeidPid = some p) {fd : Int32}
    (hfd : fd ∈ listedFds w p) :
    lookupMatch w c dir (fmtInt fd.toInt) =
      if 0 ≤ fd then .ok (some (s, ⟨dir.nodeId.nodeidPid, objectidOfInt fd, s.psnBaseNodeId⟩))
      else .error .ENOENT := by
  rw [lookupMatch_number htree hdir hs (by rw [htype]; rfl) (fmtInt_ne_psnName htree hdir _),
    numberMatch, if_pos htype, lookupFd]
  by_cases hneg : 0 ≤ fd
  · have hread := procfsAtoi_fmtInt hneg
    have hminus : fd ≠ -1 := by
      rintro rfl
      exact absurd hneg (by decide)
    have hhas : hasFd w dir.nodeId.nodeidPid fd = true := by
      simp only [hasFd, hlive]
      unfold listedFds at hfd
      cases hlist : procfsGetFdList w.mem p with
      | ok fds => simpa [hlist] using hfd
      | error e => simp [hlist] at hfd
    rw [hread, if_pos ⟨hminus, hhas⟩, if_pos hneg]
  · have hlt : fd.toInt < 0 := by
      rw [Int32.le_iff_toInt_le] at hneg
      exact not_le.mp hneg
    rw [procfsAtoi_fmtInt_neg hlt, if_neg fun h => h.1 rfl, if_neg hneg]

theorem matches_fd_iff (htype : s.psnNodeType = .fd)
    (hlive : w.procs.procFind dir.nodeId.nodeidPid = some p) {fd : Int32}
    (hfd : fd ∈ listedFds w p) :
    Matches w c dir (fmtInt fd.toInt)
        (procfsGetFileid dir.nodeId.nodeidPid (objectidOfInt fd) s.psnBaseNodeId) ↔
      0 ≤ fd := by
  rw [Matches, lookupMatch_fd htree hdir hs htype hlive hfd]
  by_cases hneg : 0 ≤ fd
  · simp [hneg, PfsId.fileId]
  · simp [hneg]

end

/-! ## The oids of `/proc/sys` -/

/-- The search in a sysctl directory ends with a child of that name that is not
shadowed. -/
theorem matches_oid_iff {w : World} {c : Caller} {dir : Pfsnode}
    (hsysctl : dir.nodeStructureNode.psnNodeType = .sysctl) (hnames : DistinctSiblings w.oids)
    (haddrs : OidsAboveSyn w.oids) {name : CString} {fileId : UInt64} :
    Matches w c dir name fileId ↔
      ∃ child ∈ sysctlListing w.oids dir.nodeId.nodeidObjectid,
        ¬ Shadowed w.oids dir.nodeId.nodeidObjectid child ∧
        child.name.bytes = soughtName dir.nodeId.nodeidObjectid name ∧
        procfsGetFileid prnodeNoPid child.objectid dir.nodeStructureNode.psnBaseNodeId =
          fileId := by
  simp only [Matches, lookupMatch, if_pos hsysctl, procfsSysctlFind_eq, Option.map_map,
    Except.ok.injEq, Option.map_eq_some_iff, find?_sysctlListing_iff hnames haddrs]
  constructor
  · rintro ⟨s, id, ⟨child, ⟨hmem, hname, hunshadowed⟩, heq⟩, hfile⟩
    cases heq
    exact ⟨child, hmem, hunshadowed, hname, hfile⟩
  · rintro ⟨child, hmem, hunshadowed, hname, hfile⟩
    exact ⟨_, _, ⟨child, ⟨hmem, hname, hunshadowed⟩, rfl⟩, hfile⟩

/-! ## Listed names are resolved -/

/-- The name of an oid, cut to `NAME_MAX` and with `kernel` read as `kern` at the
top, leads to a child of the same file id. -/
def SysctlReadsBack (roots : List SysctlOid) (d : UInt64) (baseId : UInt16)
    (child : SysctlChild) : Prop :=
  child.name.bytes ≠ [] ∧
    ∃ other ∈ sysctlListing roots d, ¬ Shadowed roots d other ∧
      other.name.bytes = soughtName d (child.name.bytes.take nameMax) ∧
      procfsGetFileid prnodeNoPid other.objectid baseId =
        procfsGetFileid prnodeNoPid child.objectid baseId

/-- So does every name that needs no cutting, is not `kernel` at the top, and is
not shadowed. -/
theorem SysctlReadsBack.of_plain {roots : List SysctlOid} {d : UInt64} {child : SysctlChild}
    (hmem : child ∈ sysctlListing roots d) (hne : child.name.bytes ≠ [])
    (hlen : child.name.bytes.length ≤ nameMax)
    (hkernel : ¬ (d = 0 ∧ child.name.bytes = cstr "kernel"))
    (hunshadowed : ¬ Shadowed roots d child) (baseId : UInt16) :
    SysctlReadsBack roots d baseId child := by
  refine ⟨hne, child, hmem, hunshadowed, ?_, rfl⟩
  rw [List.take_of_length_le hlen, soughtName, if_neg hkernel]

/-- The condition under which the names of a directory can be read back: where
threads are listed, each thread id is read as one of a thread with the same file
id (as every id below `2^31` is: `threadRead_of_lt`); where descriptors are listed,
none is negative; and below `/proc/sys` the names of the oids lead to children of
the same file id (`SysctlReadsBack.of_plain`). -/
structure ListedNamesReadBack (w : World) (c : Caller) (dir : Pfsnode) : Prop where
  threads : ∀ s ∈ w.tree.children dir.nodeStructureNode, s.psnNodeType = .thread →
    dirVisible w c dir = true → ∀ t ∈ listedThreads w dir.nodeId.nodeidPid,
      ∃ t' ∈ listedThreads w dir.nodeId.nodeidPid, threadRead t = some t' ∧
        procfsGetFileid dir.nodeId.nodeidPid t' s.psnBaseNodeId =
          procfsGetFileid dir.nodeId.nodeidPid t s.psnBaseNodeId
  fds : ∀ s ∈ w.tree.children dir.nodeStructureNode, s.psnNodeType = .fd →
    dirVisible w c dir = true → ∀ p, w.procs.procFind dir.nodeId.nodeidPid = some p →
      ∀ fd ∈ listedFds w p, 0 ≤ fd
  oids : dir.nodeStructureNode.psnNodeType = .sysctl →
    ∀ child ∈ sysctlListing w.oids dir.nodeId.nodeidObjectid,
      child.name.bytes ≠ cstr "." → child.name.bytes ≠ cstr ".." →
      SysctlReadsBack w.oids dir.nodeId.nodeidObjectid dir.nodeStructureNode.psnBaseNodeId child

section

variable {w : World} {c : Caller} {build : ℕ} {next : UInt16} {dir : Pfsnode}

/-- What a directory outside `/proc/sys` lists. -/
theorem mem_dirListing_iff (hsysctl : dir.nodeStructureNode.psnNodeType ≠ .sysctl) :
    e ∈ dirListing w c dir ↔ dirVisible w c dir = true ∧
      ∃ s ∈ w.tree.children dir.nodeStructureNode,
        procfsNodeVersionHidden w.linuxVersion s.psnName = false ∧ e ∈ childEntries w c dir s := by
  rw [dirListing, if_neg hsysctl, childrenEntries]
  by_cases hvisible : dirVisible w c dir = true
  · simp [hvisible, and_assoc]
  · simp [hvisible]

theorem fmtInt_head (n : ℤ) : ∃ b rest, fmtInt n = b :: rest ∧ b ≠ 46 := by
  by_cases hneg : n < 0
  · exact ⟨45, fmtNat n.natAbs, by rw [fmtInt, if_pos hneg]; rfl, by decide⟩
  · have hhead := fmtNat_head_isDigit n.natAbs []
    rw [List.append_nil, ← fmtInt_of_nonneg (not_lt.mp hneg)] at hhead
    cases hname : fmtInt n with
    | nil => simp [hname] at hhead
    | cons b rest =>
      refine ⟨b, rest, rfl, ?_⟩
      rintro rfl
      simp [hname, isDigit] at hhead

theorem fmtInt_ne_dots (n : ℤ) : fmtInt n ≠ cstr "." ∧ fmtInt n ≠ cstr ".." := by
  rcases fmtInt_head n with ⟨b, rest, hname, hb⟩
  rw [hname]
  constructor <;> intro heq <;> exact hb (List.cons.inj heq).1

/-- Processes, threads and descriptors are not named like the dots: their names begin with a digit
or a minus sign. -/
theorem childEntries_ne_dots (hlisting : s.psnNodeType.isListing = true)
    (he : e ∈ childEntries w c dir s) : e.name ≠ cstr "." ∧ e.name ≠ cstr ".." := by
  rcases childEntries_numbered hlisting he with ⟨p, hlive, hname⟩ | ⟨n, -, hname⟩
  · have hdigit := (processEntryName_digit s.psnNodeType (w.procs.pid_nonneg _ _ hlive)).1
    rw [← hname] at hdigit
    constructor <;> intro heq <;> rw [heq] at hdigit <;> exact absurd hdigit (by decide)
  · rw [hname]
    exact fmtInt_ne_dots n

/-- Outside `/proc/sys` every name is a proper path component. -/
theorem childEntries_name (htree : w.tree = procfsStructureInit build next)
    (hdir : dir.nodeStructureNode ∈ w.tree.nodes) (hs : s ∈ w.tree.children dir.nodeStructureNode)
    (he : e ∈ childEntries w c dir s) : e.name ≠ [] ∧ e.name.length ≤ nameMax := by
  have hlayout := layoutOk_of_mem htree hdir
  cases hlisting : s.psnNodeType.isListing with
  | false =>
    rw [childEntries_static hlisting (hlayout.ne_root hs), List.mem_singleton] at he
    rw [he]
    exact ⟨hlayout.name_ne_nil hs, hlayout.length_le_nameMax hs⟩
  | true =>
    rcases childEntries_numbered hlisting he with ⟨p, hlive, hname⟩ | ⟨n, hn, hname⟩
    · have hdigit := processEntryName_digit s.psnNodeType (w.procs.pid_nonneg _ _ hlive)
      rw [← hname] at hdigit
      refine ⟨?_, hdigit.2.trans (by decide)⟩
      intro hnil
      rw [hnil] at hdigit
      exact absurd hdigit.1 (by simp)
    · rcases fmtInt_head n with ⟨b, rest, hhead, -⟩
      have hlen := length_fmtInt_le hn
      have hmax : nameMax = 255 := rfl
      rw [hname]
      exact ⟨by simp [hhead], by omega⟩

theorem live_of_mem_listedThreads {t : UInt64}
    (h : t ∈ listedThreads w dir.nodeId.nodeidPid) :
    ∃ p, w.procs.procFind dir.nodeId.nodeidPid = some p := by
  unfold listedThreads at h
  split at h
  · cases h
  · rename_i p hlive
    exact ⟨p, hlive⟩

/-- Every entry of a child is resolved to its file id, unless it is a thread or a
descriptor that is not read back. -/
theorem childEntries_match_iff (htree : w.tree = procfsStructureInit build next)
    (hdir : Placed w.tree dir) (hisdir : dir.IsDir w.oids) (hvisible : dirVisible w c dir = true)
    (hs : s ∈ w.tree.children dir.nodeStructureNode)
    (hshown : procfsNodeVersionHidden w.linuxVersion s.psnName = false) :
    (∀ e ∈ childEntries w c dir s, e.name ≠ cstr "." ∧ e.name ≠ cstr ".." →
        Matches w c dir e.name e.fileId) ↔
      (s.psnNodeType = .thread → ∀ t ∈ listedThreads w dir.nodeId.nodeidPid,
        ∃ t' ∈ listedThreads w dir.nodeId.nodeidPid, threadRead t = some t' ∧
          procfsGetFileid dir.nodeId.nodeidPid t' s.psnBaseNodeId =
            procfsGetFileid dir.nodeId.nodeidPid t s.psnBaseNodeId) ∧
      (s.psnNodeType = .fd → ∀ p, w.procs.procFind dir.nodeId.nodeidPid = some p →
        ∀ fd ∈ listedFds w p, 0 ≤ fd) := by
  have hmem := hdir.mem
  by_cases hthread : s.psnNodeType = .thread
  · -- threads
    have hentries : childEntries w c dir s =
        threadEntries dir s (listedThreads w dir.nodeId.nodeidPid) := by
      simp only [childEntries, hthread]
    simp only [hentries, threadEntries, List.forall_mem_map, fmtInt_ne_dots, and_self, ne_eq,
      not_false_eq_true, forall_const, hthread, reduceCtorEq, false_implies, and_true]
    refine forall₂_congr fun t ht => ?_
    rcases live_of_mem_listedThreads ht with ⟨p, hlive⟩
    exact matches_thread_iff htree hmem hs hthread hlive hvisible t
  by_cases hfd : s.psnNodeType = .fd
  · -- descriptors
    cases hlive : w.procs.procFind dir.nodeId.nodeidPid with
    | none => simp [childEntries, hfd, hlive]
    | some p =>
      have hentries : childEntries w c dir s = fdEntries dir s (listedFds w p) := by
        simp only [childEntries, hfd, hlive]
      simp only [hentries, fdEntries, List.forall_mem_map, fmtInt_ne_dots, and_self, ne_eq,
        not_false_eq_true, forall_const, hfd, reduceCtorEq, false_implies, true_and,
        Option.some.injEq, forall_eq']
      exact forall₂_congr fun fd hlisted => matches_fd_iff htree hmem hs hfd hlive hlisted
  · -- processes, and entries of their own
    refine iff_of_true ?_ ⟨fun h => absurd h hthread, fun h => absurd h hfd⟩
    intro e he hdots
    by_cases hproc : s.psnNodeType = .proc ∨ s.psnNodeType = .procnamedir
    · have hentries : childEntries w c dir s = pidEntries w c s := by
        rcases hproc with h | h <;> simp only [childEntries, h]
      rw [hentries] at he
      exact matches_pid htree hdir hisdir hs hproc he
    · have hnoroot := (layoutOk_of_mem htree hmem).ne_root hs
      have hlisting : s.psnNodeType.isListing = false := by
        rw [Bool.eq_false_iff, Ne, PfsType.isListing_iff]
        exact fun h => h.elim hproc fun h => h.elim hthread hfd
      rw [childEntries_static hlisting hnoroot, List.mem_singleton] at he
      subst he
      exact matches_static htree hdir hs hshown hdots

section

variable (htree : w.tree = procfsStructureInit build next) (hreach : Reach w.tree c.pmp dir)
  (hisdir : dir.IsDir w.oids)
include htree hreach hisdir

/-- Outside `/proc/sys`, a listed name is resolved to its file id when the search
for it ends there. -/
theorem resolvesTo_listed_iff (hs : s ∈ w.tree.children dir.nodeStructureNode)
    (he : e ∈ childEntries w c dir s) (hdots : e.name ≠ cstr "." ∧ e.name ≠ cstr "..") :
    ResolvesTo w c dir e.name e.fileId ↔ Matches w c dir e.name e.fileId := by
  rcases childEntries_name htree (hreach.placed htree).1.mem hs he with ⟨hne, hlen⟩
  rw [resolvesTo_iff htree hreach hisdir hne hdots, List.take_of_length_le hlen]
  rfl

/-- And so is what is listed in the other directories. -/
theorem listed_names_resolve_tree (hsysctl : dir.nodeStructureNode.psnNodeType ≠ .sysctl) :
    (∀ e ∈ dirListing w c dir, e.name ≠ cstr "." → e.name ≠ cstr ".." →
        ResolvesTo w c dir e.name e.fileId) ↔
      ListedNamesReadBack w c dir := by
  have hplaced := (hreach.placed htree).1
  have hlayout := layoutOk_of_mem htree hplaced.mem
  constructor
  · intro hall
    -- child by child
    have hchild : ∀ s ∈ w.tree.children dir.nodeStructureNode,
        s.psnNodeType.isListing = true → dirVisible w c dir = true → _ :=
      fun s hs hlisting hvisible => by
        have hshown := (hlayout.site s hs).listing_shown hlisting w.linuxVersion
        refine (childEntries_match_iff htree hplaced hisdir hvisible hs hshown).mp ?_
        intro e he hdots
        rw [← resolvesTo_listed_iff htree hreach hisdir hs he hdots]
        exact hall e ((mem_dirListing_iff hsysctl).mpr ⟨hvisible, s, hs, hshown, he⟩)
          hdots.1 hdots.2
    refine ⟨fun s hs htype hvisible => ?_, fun s hs htype hvisible => ?_,
      fun h => absurd h hsysctl⟩
    · exact (hchild s hs (by rw [htype]; rfl) hvisible).1 htype
    · exact (hchild s hs (by rw [htype]; rfl) hvisible).2 htype
  · intro hread e he hdot hdotdot
    rcases (mem_dirListing_iff hsysctl).mp he with ⟨hvisible, s, hs, hshown, hentry⟩
    rw [resolvesTo_listed_iff htree hreach hisdir hs hentry ⟨hdot, hdotdot⟩]
    refine (childEntries_match_iff htree hplaced hisdir hvisible hs hshown).mpr ?_ e hentry
      ⟨hdot, hdotdot⟩
    exact ⟨fun htype => hread.threads s hs htype hvisible,
      fun htype => hread.fds s hs htype hvisible⟩

variable (haddrs : OidsAboveSyn w.oids) (hnames : DistinctSiblings w.oids)
  (hsysctl : dir.nodeStructureNode.psnNodeType = .sysctl)
include haddrs hnames hsysctl

/-- Below `/proc/sys`, the listed names are resolved when they lead to children of
the same file id. -/
theorem listed_oids_resolve_iff {child : SysctlChild}
    (hdots : child.name.bytes ≠ cstr "." ∧ child.name.bytes ≠ cstr "..") :
    ResolvesTo w c dir (sysctlEntry dir child).name (sysctlEntry dir child).fileId ↔
      SysctlReadsBack w.oids dir.nodeId.nodeidObjectid dir.nodeStructureNode.psnBaseNodeId
        child := by
  constructor
  · intro hresolves
    obtain ⟨id, hid⟩ := hresolves.resolves
    have hne : child.name.bytes ≠ [] := hid.ne_nil
    have hmatch := (resolvesTo_iff htree hreach hisdir hne hdots).mp hresolves
    exact ⟨hne, (matches_oid_iff hsysctl hnames haddrs).mp hmatch⟩
  · rintro ⟨hne, hother⟩
    refine (resolvesTo_iff htree hreach hisdir hne hdots).mpr ?_
    exact (matches_oid_iff hsysctl hnames haddrs).mpr hother

/-- What is listed below `/proc/sys` is resolved when it can be read back. -/
theorem listed_names_resolve_sysctl :
    (∀ e ∈ dirListing w c dir, e.name ≠ cstr "." → e.name ≠ cstr ".." →
        ResolvesTo w c dir e.name e.fileId) ↔
      ListedNamesReadBack w c dir := by
  have hlayout := layoutOk_of_mem htree (hreach.placed htree).1.mem
  have hnil := (childrenOk_iff.mp hlayout.ok).2.2 hsysctl
  rw [dirListing, if_pos hsysctl]
  constructor
  · intro hall
    refine ⟨by simp [hnil], by simp [hnil], fun _ child hchild hdot hdotdot => ?_⟩
    apply (listed_oids_resolve_iff htree hreach hisdir haddrs hnames hsysctl ⟨hdot, hdotdot⟩).mp
    exact hall _ (List.mem_append_right _ (List.mem_map_of_mem hchild)) hdot hdotdot
  · intro hread e he hdot hdotdot
    rcases List.mem_append.mp he with he | he
    · simp only [sysctlDots, List.mem_cons, List.not_mem_nil, or_false] at he
      rcases he with rfl | rfl
      · exact absurd rfl hdot
      · exact absurd rfl hdotdot
    · rcases List.mem_map.mp he with ⟨child, hchild, rfl⟩
      apply (listed_oids_resolve_iff htree hreach hisdir haddrs hnames hsysctl ⟨hdot, hdotdot⟩).mpr
      exact hread.oids hsysctl child hchild hdot hdotdot

end

/-- For every directory ever reached, every caller and every world: each name other
than `.` and `..` that readdir emits is resolved by a lookup in the same directory
to a node with the file id that readdir reported, exactly when the listed names can
be read back. -/
theorem listed_names_resolve_iff (htree : w.tree = procfsStructureInit build next)
    (hreach : Reach w.tree c.pmp dir) (hisdir : dir.IsDir w.oids)
    (haddrs : OidsAboveSyn w.oids) (hnames : DistinctSiblings w.oids) :
    (∀ e, Emits w c dir e → e.name ≠ cstr "." → e.name ≠ cstr ".." →
        ResolvesTo w c dir e.name e.fileId) ↔
      ListedNamesReadBack w c dir := by
  simp only [emits_iff htree (hreach.placed htree).1.mem hisdir]
  by_cases hsysctl : dir.nodeStructureNode.psnNodeType = .sysctl
  · exact listed_names_resolve_sysctl htree hreach hisdir haddrs hnames hsysctl
  · exact listed_names_resolve_tree htree hreach hisdir hsysctl

end

/-- The `threads` directory of the shell. -/
def shThreads : Pfsnode :=
  ⟨1, ⟨7, 0, 123⟩, ⟨0, 122, .dir, cstr "threads", 123, psnFlagProcess, some 113⟩, 0, .VDIR⟩

theorem shThreads_mem : shThreads.nodeStructureNode ∈ shWorld.tree.nodes := by decide +kernel

theorem isDir_shThreads (oids : List SysctlOid) : shThreads.IsDir oids :=
  .of_ne_sysctl rfl (by decide) oids

/-- The owner of the shell reaches it through `/proc/7`. -/
theorem reach_shThreads : Reach shWorld.tree (userCaller 501).pmp shThreads := by
  have hempty := tableReached_nil shWorld.tree (userCaller 501).pmp
  have hproc : Reach shWorld.tree (userCaller 501).pmp
      ⟨1, ⟨7, 0, 114⟩, ⟨0, 113, .proc, cstr "__Process__", 114, psnFlagProcess, some 0⟩,
        0, .VDIR⟩ :=
    Reach.lookup shWorld ⟨501, 12⟩ [] (cstr "7") ⟨true, none, none⟩ rfl reach_shRoot hempty
      (by decide +kernel)
  exact Reach.lookup shWorld ⟨501, 12⟩ [] (cstr "threads") ⟨true, none, none⟩ rfl hproc hempty
    (by decide +kernel)

/-- There are no oids at all in this world. -/
theorem distinctSiblings_sh : DistinctSiblings shWorld.oids := by
  intro d list hlist
  rcases procfsSysctlChildren_eq_some.mp hlist with ⟨-, rfl⟩ | ⟨-, found, hderef, -⟩
  · exact List.nodup_nil
  · cases hderef

/-- The threads of the shell, which have small ids, are found under their names. -/
theorem listed_names_resolve_shThreads :
    ∃ e, Emits shWorld (userCaller 501) shThreads e ∧ e.name = cstr "11" ∧
      ResolvesTo shWorld (userCaller 501) shThreads e.name e.fileId := by
  have hread : ListedNamesReadBack shWorld (userCaller 501) shThreads := by
    refine ⟨fun s hs htype hvisible t ht => ?_, fun s hs htype => ?_, fun h => ?_⟩
    · have hsmall : (listedThreads shWorld shThreads.nodeId.nodeidPid).all
          (fun t => t.toNat ≤ 1000) = true := by decide
      have hle := of_decide_eq_true (List.all_eq_true.mp hsmall t ht)
      exact ⟨t, ht, threadRead_of_lt (by omega), rfl⟩
    · have hnofd : ∀ s ∈ shWorld.tree.children shThreads.nodeStructureNode,
          s.psnNodeType ≠ .fd := by decide +kernel
      exact absurd htype (hnofd s hs)
    · cases h
  have hall := (listed_names_resolve_iff (c := userCaller 501) rfl reach_shThreads
    (isDir_shThreads _) (by simp [OidsAboveSyn, shWorld, addrsList]) distinctSiblings_sh).mpr hread
  have hlisted : ∃ e ∈ dirListing shWorld (userCaller 501) shThreads, e.name = cstr "11" := by
    decide +kernel
  rcases hlisted with ⟨e, he, hname⟩
  have hemits := (emits_iff rfl shThreads_mem (isDir_shThreads _)).mpr he
  refine ⟨e, hemits, hname, hall e hemits ?_ ?_⟩ <;> rw [hname] <;> decide

/-- The shell has one thread, whose id does not fit into an `int`. -/
def wideThreadWorld : World :=
  { shWorld with
    procs := ProcTable.single { shProc with threadReply := .ok [2147483648] } (by decide) }

/-- Such a thread is listed but not found under its name. -/
theorem listed_thread_unresolved :
    ∃ e, Reach wideThreadWorld.tree (userCaller 501).pmp shThreads ∧
      Emits wideThreadWorld (userCaller 501) shThreads e ∧ e.name = cstr "2147483648" ∧
      ¬ ResolvesTo wideThreadWorld (userCaller 501) shThreads e.name e.fileId := by
  have htree : wideThreadWorld.tree = procfsStructureInit 0 2 := rfl
  have hmem : shThreads.nodeStructureNode ∈ wideThreadWorld.tree.nodes := shThreads_mem
  have hlisted : ∃ e ∈ dirListing wideThreadWorld (userCaller 501) shThreads,
      e.name = cstr "2147483648" := by decide +kernel
  have hfails : (procfsVnopLookup wideThreadWorld (userCaller 501) [] shThreads (cstr "2147483648")
      ⟨true, none, none⟩).1 = .error .ENOENT := by decide +kernel
  rcases hlisted with ⟨e, he, hname⟩
  refine ⟨e, reach_shThreads, (emits_iff htree hmem (isDir_shThreads _)).mpr he, hname, ?_⟩
  intro hresolves
  rcases hresolves [] ⟨true, none, none⟩ (tableReached_nil _ _) rfl rfl with ⟨pnp, hok, -⟩
  rw [hname, hfails] at hok
  cases hok

end ProcFS
