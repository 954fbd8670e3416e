import Mathlib.Data.Set.Card
import ProcFS.Placement
import ProcFS.Resume

/-!
# ProcFS.Reading — directories read to the end, and the processes of the root

A reading of a directory is complete when a further call, with a buffer for any
record, returns nothing. The processes come into the listing of the root by a
scan of the pid space that stops when its result array is full: what the root
lists is exact as long as the caller can see no more processes than the array
holds.

* `CompleteReading.eq_dirListing`: a complete reading has the listing of the directory.
* `getPidsLoop_eq`: what the pid scan collects.
* `completeReading_lists_processes_iff`: when a complete reading of the root has every process once.
-/

namespace ProcFS

/-! ## Complete readings -/

/-- `sizeof(struct direntry)`, which holds any record. -/
def direntSize : ℕ := direntFixedSize + maxpathlen

theorem procfsCalcDirentSize_le {name : CString} (h : name.length < maxpathlen) :
    procfsCalcDirentSize name ≤ direntSize := by
  have hmax : maxpathlen = 1024 := rfl
  unfold procfsCalcDirentSize direntSize direntFixedSize
  omega

/-- Calls with positive buffers, the first at offset 0, that returned these entries
in order, after which there is nothing left to return. -/
structure CompleteReading (w : World) (c : Caller) (dir : Pfsnode) (calls : List ReaddirCall)
    (entries : List Entry) : Prop where
  rooms : ∀ call ∈ calls, 0 < call.room
  read : ∃ cur, readdirCalls w c dir calls = some cur ∧
    cur.got.map Direntry.entry = entries ∧
    ∃ r, procfsVnopReaddir w c dir cur.offset direntSize = some r ∧ r.records = []

section

variable {w : World} {c : Caller} {dir : Pfsnode} {build : ℕ} {next : UInt16}

variable (htree : w.tree = procfsStructureInit build next)
  (hdir : dir.nodeStructureNode ∈ w.tree.nodes) (hisdir : dir.IsDir w.oids)
include htree hdir hisdir

/-- A call in step with the listing returns nothing only at its end. -/
theorem synced_records_eq_nil_iff {n : ℕ} {cur : RecordFormat.Cursor Direntry}
    (h : direntFormat.Synced (dirListing w c dir) n cur) :
    ∃ r, procfsVnopReaddir w c dir cur.offset direntSize = some r ∧
      (r.records = [] ↔ n = (dirListing w c dir).length) := by
  have hpos : 0 < direntSize := by decide
  obtain ⟨r, hr, -, hrecords⟩ := procfsVnopReaddir_page (c := c) htree hdir hisdir cur.offset hpos
  obtain ⟨k, hle, -, hout, hprogress⟩ := direntFormat.page_at_boundary (dirListing w c dir) h.le
    direntSize
  rw [h.offset_eq] at hrecords
  rw [← hrecords] at hout
  have hlen := congrArg List.length hout
  simp only [List.length_append, RecordFormat.length_records, List.length_take] at hlen
  refine ⟨r, hr, fun hnil => ?_, fun heq => ?_⟩
  · -- the next record would have fit
    by_contra hne
    have hlt : n < (dirListing w c dir).length := lt_of_le_of_ne h.le hne
    have hk := hprogress (fun e he => procfsCalcDirentSize_le
      (dirListing_fits htree hdir (List.mem_of_getElem? he)).2) hlt
    rw [hnil] at hlen
    simp only [List.length_nil] at hlen
    omega
  · apply List.eq_nil_of_length_eq_zero
    omega

/-- A complete reading has the listing of the directory. -/
theorem CompleteReading.eq_dirListing {calls : List ReaddirCall} {entries : List Entry}
    (h : CompleteReading w c dir calls entries) : entries = dirListing w c dir := by
  obtain ⟨cur, hcur, rfl, r, hr, hnil⟩ := h.read
  obtain ⟨n, cur', hcur', hsynced, -⟩ := readdirCalls_synced (c := c) htree hdir hisdir h.rooms
  rw [hcur] at hcur'
  cases hcur'
  obtain ⟨r', hr', hiff⟩ := synced_records_eq_nil_iff htree hdir hisdir hsynced
  rw [hr] at hr'
  cases hr'
  rw [hsynced.got_eq, hiff.mp hnil, List.take_length]
  exact (records_map (fun e he => dirListing_fits htree hdir he) 0).1

/-- Every directory can be read completely. -/
theorem exists_completeReading : ∃ calls, CompleteReading w c dir calls (dirListing w c dir) := by
  have hfits : ∀ e ∈ dirListing w c dir, e.Fits := fun e he => dirListing_fits htree hdir he
  have hrooms : ∀ call ∈ List.replicate (dirListing w c dir).length
      (⟨direntSize, .offset⟩ : ReaddirCall), call.room = direntSize := by
    intro call hcall
    rw [(List.mem_replicate.mp hcall).2]
  have hpos : 0 < direntSize := by decide
  have hrooms' := fun call hcall => lt_of_lt_of_eq hpos (hrooms call hcall).symm
  obtain ⟨n, cur, hcur, hsynced, hcount⟩ := readdirCalls_synced (c := c) htree hdir hisdir hrooms'
  -- each call returns at least one record, so as many calls as entries return all of them
  have hmin := hcount fun pre call cur' hpre _ e he => by
    rw [hrooms call (hpre.subset (by simp))]
    exact procfsCalcDirentSize_le (hfits e (List.mem_of_getElem? he)).2
  have hn : n = (dirListing w c dir).length := by
    have hle := hsynced.le
    rw [List.length_replicate, min_self] at hmin
    omega
  obtain ⟨r, hr, hiff⟩ := synced_records_eq_nil_iff htree hdir hisdir hsynced
  refine ⟨_, hrooms', cur, hcur, ?_, r, hr, hiff.mpr hn⟩
  rw [hsynced.got_eq, hn, List.take_length]
  exact (records_map hfits 0).1

end

/-! ## Emitted entries -/

/-- Some readdir call, at some offset and with some room, returns a record of the
entry. -/
def Emits (w : World) (c : Caller) (dir : Pfsnode) (e : Entry) : Prop :=
  ∃ startpos room r, 0 < room ∧ procfsVnopReaddir w c dir startpos room = some r ∧
    ∃ d ∈ r.records, d.entry = e

variable {w : World} {c : Caller} {dir : Pfsnode} {next : UInt16}

/-- What calls emit is what the directory lists. -/
theorem emits_iff {build : ℕ} (htree : w.tree = procfsStructureInit build next)
    (hdir : dir.nodeStructureNode ∈ w.tree.nodes) (hisdir : dir.IsDir w.oids) {e : Entry} :
    Emits w c dir e ↔ e ∈ dirListing w c dir := by
  have hfits : ∀ e ∈ dirListing w c dir, e.Fits := fun e he => dirListing_fits htree hdir he
  constructor
  · rintro ⟨startpos, room, r, hroom, hr, d, hd, rfl⟩
    obtain ⟨r', hr', -, hrecords⟩ :=
      procfsVnopReaddir_page (c := c) htree hdir hisdir startpos hroom
    rw [hr] at hr'
    cases hr'
    rw [hrecords] at hd
    rcases direntFormat.mem_out_putAll hd with hd | ⟨e, he, pos, -, rfl⟩
    · cases hd
    · have hentry : (direntryOf e pos).entry = e := direntryOf_entry (hfits e he) pos
      exact hentry.symm ▸ he
  · intro he
    -- a single call with a buffer for the whole listing
    have hpos : 0 < direntFormat.total (dirListing w c dir) + 1 := Nat.succ_pos _
    obtain ⟨r, hr, -, hrecords⟩ := procfsVnopReaddir_page (c := c) htree hdir hisdir 0 hpos
    have hall : r.records = direntFormat.records 0 (dirListing w c dir) := by
      rw [hrecords, RecordFormat.page, direntFormat.putAll_all (Nat.zero_le _) (Nat.le_succ _),
        List.nil_append]
    have hentries := (records_map hfits 0).1
    rw [← hall] at hentries
    rw [← hentries] at he
    exact ⟨0, _, r, hpos, hr, List.mem_map.mp he⟩

/-! ## The pid scan -/

/-- The pids in the pid space whose process passes the test. -/
def visiblePids (pt : ProcTable) (creds : Option Cred) : List Int32 :=
  ((List.range' 0 (procfsMaxPid + 1)).map Int32.ofNat).filter fun i =>
    (pt.procFind i).any (pidVisible creds)

/-- The loop collects the pids that pass the test, up to the size of the array. -/
theorem getPidsLoop_eq (pt : ProcTable) (creds : Option Cred) (n pid : ℕ) {count : ℕ}
    (hcount : count ≤ procfsMaxProcs) :
    getPidsLoop pt creds n pid count =
      (((List.range' pid n).map Int32.ofNat).filter fun i =>
        (pt.procFind i).any (pidVisible creds)).take (procfsMaxProcs - count) := by
  induction n generalizing pid count with
  | zero => simp [getPidsLoop]
  | succ n ih =>
    rw [getPidsLoop, List.range'_succ, List.map_cons, List.filter_cons]
    by_cases hlt : count < procfsMaxProcs
    · rw [if_pos hlt]
      obtain ⟨room, hroom⟩ : ∃ room, procfsMaxProcs - count = room + 1 :=
        ⟨procfsMaxProcs - count - 1, by omega⟩
      have hroom' : procfsMaxProcs - (count + 1) = room := by omega
      cases hfind : pt.procFind (Int32.ofNat pid) with
      | none => simpa using ih (pid + 1) hcount
      | some p =>
        by_cases hvisible : pidVisible creds p = true
        · simp [hvisible, hroom, ih (pid + 1) hlt, hroom']
        · simpa [hvisible] using ih (pid + 1) hcount
    · -- the array is full
      rw [if_neg hlt, Nat.sub_eq_zero_of_le (not_lt.mp hlt), List.take_zero]

theorem procfsGetPids_eq {mem : Allocs} (hmem : mem.pidList = true) (pt : ProcTable)
    (creds : Option Cred) :
    procfsGetPids pt mem creds = (visiblePids pt creds).take procfsMaxProcs := by
  rw [procfsGetPids, if_pos hmem, getPidsLoop_eq pt creds _ 0 (Nat.zero_le _)]
  rfl

theorem visiblePids_nodup (pt : ProcTable) (creds : Option Cred) :
    (visiblePids pt creds).Nodup := by
  apply List.Nodup.filter
  apply List.Nodup.map_on
  · intro a ha b hb heq
    rw [List.mem_range'_1] at ha hb
    have hmax : procfsMaxPid = 99999 := rfl
    have htoInt := congrArg Int32.toInt heq
    rw [Int32.toInt_ofNat_of_lt (by omega), Int32.toInt_ofNat_of_lt (by omega)] at htoInt
    omega
  · exact List.nodup_range'

/-- The pid space holds every pid that is not too large. -/
theorem mem_visiblePids {pt : ProcTable} {creds : Option Cred} {pid : Int32}
    (hmax : ∀ p, pt.procFind pid = some p → pid.toInt ≤ procfsMaxPid) :
    pid ∈ visiblePids pt creds ↔
      ∃ p, pt.procFind pid = some p ∧ pidVisible creds p = true := by
  simp only [visiblePids, List.mem_filter, Option.any_eq_true]
  refine ⟨fun h => h.2, fun h => ⟨?_, h⟩⟩
  obtain ⟨p, hfind, -⟩ := h
  have hpid := pt.pid_nonneg pid p hfind
  have hle := hmax p hfind
  have hnonneg := toInt_nonneg hpid
  refine List.mem_map.mpr ⟨pid.toInt.natAbs, ?_, ofNat_natAbs_toInt hpid⟩
  rw [List.mem_range'_1]
  omega

/-! ## The processes of the root -/

/-- A live process that the caller may see: every one for root and on a mount
without process permissions, the accessible ones otherwise. -/
def MaySee (w : World) (c : Caller) (pid : Int32) : Prop :=
  ∃ p, w.procs.procFind pid = some p ∧
    (vfsContextSuser c.cred = true ∨ c.pmp.pmntFlags &&& procfsMoptNoprocperms ≠ 0 ∨
      procfsCheckCanAccessProcess c.cred p = none)

/-- The credential that the scan is given. -/
def scanCred (c : Caller) : Option Cred := if c.checkAccess then some c.cred else none

theorem maySee_iff {pid : Int32} :
    MaySee w c pid ↔
      ∃ p, w.procs.procFind pid = some p ∧ pidVisible (scanCred c) p = true := by
  refine exists_congr fun p => and_congr_right fun _ => ?_
  simp only [scanCred, Caller.checkAccess, procfsShouldAccessCheck]
  by_cases hsuser : vfsContextSuser c.cred = true
  · simp [hsuser, pidVisible]
  · by_cases hflags : c.pmp.pmntFlags &&& procfsMoptNoprocperms = 0
    · simp [hsuser, hflags, pidVisible]
    · simp [hflags, pidVisible]

/-- One entry for each process the caller may see, under its number, and no entry
under any other number. -/
def ListsProcesses (w : World) (c : Caller) (entries : List Entry) : Prop :=
  (∀ pid, MaySee w c pid → (entries.map Entry.name).count (fmtInt pid.toInt) = 1) ∧
  ∀ e ∈ entries, e.name.head?.any isDigit = true →
    ∃ pid, MaySee w c pid ∧ e.name = fmtInt pid.toInt

theorem pidEntries_proc {s : Pfssnode} (htype : s.psnNodeType = .proc) :
    (pidEntries w c s).map Entry.name =
      (procfsGetPids w.procs w.mem (scanCred c)).map fun pid => fmtInt pid.toInt := by
  simp [pidEntries, pidName, htype, scanCred, Function.comp_def]

/-- The root lists its other children under names that are no numbers, and then
the processes that the scan found. -/
theorem dirListing_root {build : ℕ} (htree : w.tree = procfsStructureInit build next)
    (hroot : IsRoot w c dir) :
    ∃ names, (∀ name ∈ names, name.head?.any isDigit = false) ∧
      (dirListing w c dir).map Entry.name = names ++
        (procfsGetPids w.procs w.mem (scanCred c)).map fun pid => fmtInt pid.toInt := by
  have hsnode := hroot.snode_eq
  rw [htree, procfsStructureRootNode_eq, Option.some.injEq] at hsnode
  have hmem : dir.nodeStructureNode ∈ (procfsStructureInit build next).nodes := by
    rw [← htree]
    exact List.mem_of_getElem? hroot.snode_eq
  -- the last child of the root stands for the processes, and the others for themselves
  have hlayout := procfsStructureInit_layoutOk hmem
  obtain ⟨-, hnames, -⟩ := childrenOk_iff.mp hlayout.ok
  obtain ⟨s, hs, htype⟩ := hlayout.root_lists (by rw [← hsnode])
  have hlisting : s.psnNodeType.isListing = true := by
    rw [htype]
    rfl
  obtain ⟨skipped, hchildren, hskipped⟩ := children_listing hmem hs hlisting
  have hvisible : dirVisible w c dir = true := by
    simp [dirVisible, hroot.id_eq, procfsRootNodeId]
  have hshown := (hlayout.site s hs).listing_shown hlisting w.linuxVersion
  -- so the listing is that of the others and then that of the processes
  have hentries : dirListing w c dir = ((skipped.filter fun s =>
      !procfsNodeVersionHidden w.linuxVersion s.psnName).flatMap (childEntries w c dir)) ++
      pidEntries w c s := by
    have hnosysctl : dir.nodeStructureNode.psnNodeType ≠ .sysctl := by simp [← hsnode]
    rw [dirListing, if_neg hnosysctl, htree, hchildren, childrenEntries, if_pos hvisible]
    simp [hshown, childEntries, htype]
  refine ⟨_, ?_, by rw [hentries, List.map_append, pidEntries_proc htype]⟩
  -- no child is called like a number
  intro name hname
  obtain ⟨e, he, rfl⟩ := List.mem_map.mp hname
  obtain ⟨s', hs', he⟩ := List.mem_flatMap.mp he
  have hs'' := List.mem_of_mem_filter hs'
  have hok := hnames s' (by rw [hchildren]; exact List.mem_append_left _ hs'')
  rw [childEntries_static (hskipped s' hs'') hok.1, List.mem_singleton] at he
  rw [he]
  exact hok.2.1

/-- Two pids with the same number are the same. -/
theorem fmtInt_toInt_inj {i j : Int32} (hi : 0 ≤ i) (hj : 0 ≤ j)
    (h : fmtInt i.toInt = fmtInt j.toInt) : i = j := by
  have hread := congrArg (fun name => (procfsAtoi name).1) h
  simpa [procfsAtoi_fmtInt hi, procfsAtoi_fmtInt hj] using hread

/-- The number of a pid occurs among the names of the root as often as the scan
found the pid. -/
theorem count_dirListing_root {build : ℕ} (htree : w.tree = procfsStructureInit build next)
    (hroot : IsRoot w c dir) {pid : Int32} (hpid : 0 ≤ pid) :
    ((dirListing w c dir).map Entry.name).count (fmtInt pid.toInt) =
      (procfsGetPids w.procs w.mem (scanCred c)).count pid := by
  obtain ⟨names, hnames, heq⟩ := dirListing_root htree hroot
  -- a number begins with a digit, which no other name in the root does
  have hdigit : (fmtInt pid.toInt).head?.any isDigit = true := by
    have hhead := fmtNat_head_isDigit pid.toInt.natAbs []
    rwa [List.append_nil, ← fmtInt_of_nonneg (toInt_nonneg hpid)] at hhead
  have hnone : names.count (fmtInt pid.toInt) = 0 := by
    rw [List.count_eq_zero]
    intro hmem
    rw [hnames _ hmem] at hdigit
    cases hdigit
  rw [heq, List.count_append, hnone, Nat.zero_add, List.count, List.countP_map, List.count]
  apply List.countP_congr
  -- and the numbers in the listing are those of the scan
  intro i hi
  have hi0 : 0 ≤ i := by
    unfold procfsGetPids at hi
    split at hi
    · obtain ⟨p, hp, -⟩ := getPidsLoop_visible hi
      exact w.procs.pid_nonneg i p hp
    · cases hi
  simp only [Function.comp_apply, beq_iff_eq]
  refine ⟨fun h => fmtInt_toInt_inj hi0 hpid h, fun h => ?_⟩
  rw [h]

/-- A list without repetitions fits into an array when none of its members is cut
off. -/
theorem length_le_iff_forall_mem_take {α : Type} {xs : List α} (h : xs.Nodup) (n : ℕ) :
    xs.length ≤ n ↔ ∀ x ∈ xs, x ∈ xs.take n := by
  refine ⟨fun hle x hx => ?_, fun hall => ?_⟩
  · rwa [List.take_of_length_le hle]
  · have hsub : List.Subperm xs (xs.take n) := List.subperm_of_subset h hall
    have hlen := hsub.length_le
    rw [List.length_take] at hlen
    omega

section

variable {w : World} {c : Caller} (hmax : ∀ pid p, w.procs.procFind pid = some p →
  pid.toInt ≤ procfsMaxPid)

include hmax

theorem mem_visiblePids_iff_maySee {pid : Int32} :
    pid ∈ visiblePids w.procs (scanCred c) ↔ MaySee w c pid := by
  rw [maySee_iff]
  exact mem_visiblePids (hmax pid)

theorem ncard_maySee :
    {pid | MaySee w c pid}.ncard = (visiblePids w.procs (scanCred c)).length := by
  have hset : {pid | MaySee w c pid} = ↑(visiblePids w.procs (scanCred c)).toFinset := by
    ext pid
    rw [List.coe_toFinset]
    exact (mem_visiblePids_iff_maySee hmax).symm
  rw [hset, Set.ncard_coe_finset, List.toFinset_card_of_nodup (visiblePids_nodup _ _)]

/-- What a complete reading of the root lists of the processes. -/
theorem listsProcesses_dirListing_iff {build : ℕ} (htree : w.tree = procfsStructureInit build next)
    (hroot : IsRoot w c dir) (hmem : w.mem.pidList = true) :
    ListsProcesses w c (dirListing w c dir) ↔
      (visiblePids w.procs (scanCred c)).length ≤ procfsMaxProcs := by
  have hpids := procfsGetPids_eq hmem w.procs (scanCred c)
  have hnodup := visiblePids_nodup w.procs (scanCred c)
  -- a visible pid is listed once if the array holds it, and otherwise not at all
  have hcount : ∀ pid, MaySee w c pid →
      (((dirListing w c dir).map Entry.name).count (fmtInt pid.toInt) = 1 ↔
        pid ∈ (visiblePids w.procs (scanCred c)).take procfsMaxProcs) := by
    intro pid hsee
    obtain ⟨p, hp, -⟩ := hsee
    rw [count_dirListing_root htree hroot (w.procs.pid_nonneg pid p hp), hpids]
    constructor
    · intro hone
      apply List.count_pos_iff.mp
      omega
    · exact List.count_eq_one_of_mem (hnodup.sublist (List.take_sublist _ _))
  have hothers : ∀ e ∈ dirListing w c dir, e.name.head?.any isDigit = true →
      ∃ pid, MaySee w c pid ∧ e.name = fmtInt pid.toInt := by
    intro e he hdigit
    obtain ⟨names, hnames, heq⟩ := dirListing_root htree hroot
    have hname : e.name ∈ (dirListing w c dir).map Entry.name := List.mem_map_of_mem he
    rw [heq, hpids] at hname
    rcases List.mem_append.mp hname with hstatic | hpid
    · rw [hnames _ hstatic] at hdigit
      cases hdigit
    · obtain ⟨pid, hpid, hpidname⟩ := List.mem_map.mp hpid
      exact ⟨pid, (mem_visiblePids_iff_maySee hmax).mp (List.mem_of_mem_take hpid), hpidname.symm⟩
  rw [length_le_iff_forall_mem_take hnodup]
  constructor
  · rintro ⟨hone, -⟩ pid hpid
    have hsee := (mem_visiblePids_iff_maySee hmax).mp hpid
    exact (hcount pid hsee).mp (hone pid hsee)
  · intro hall
    refine ⟨fun pid hsee => ?_, hothers⟩
    exact (hcount pid hsee).mpr (hall pid ((mem_visiblePids_iff_maySee hmax).mpr hsee))

/-- With pids in the pid space and memory for the list of pids, a complete reading
of the root has one numbered entry for each process the caller may see, and no
other, exactly when those processes fit into the result array of the scan. -/
theorem completeReading_lists_processes_iff {build : ℕ} {next : UInt16} {dir : Pfsnode}
    (htree : w.tree = procfsStructureInit build next) (hroot : IsRoot w c dir)
    (hmem : w.mem.pidList = true) {calls : List ReaddirCall} {entries : List Entry}
    (hreading : CompleteReading w c dir calls entries) :
    ListsProcesses w c entries ↔ {pid | MaySee w c pid}.ncard ≤ procfsMaxProcs := by
  have hplaced := Placed.root htree hroot
  have hisdir := hroot.isDir htree w.oids
  rw [hreading.eq_dirListing htree hplaced.mem hisdir, ncard_maySee hmax,
    listsProcesses_dirListing_iff hmax htree hroot hmem]

end

/-- The root of the file system in which the shell is live. -/
def shRoot : Pfsnode := ⟨1, procfsRootNodeId, ⟨0, 0, .root, cstr "/", 1, 0, none⟩, 0, .VDIR⟩

theorem shRoot_mem : shRoot.nodeStructureNode ∈ shWorld.tree.nodes :=
  List.mem_of_getElem? (procfsStructureRootNode_eq 0 2)

theorem isRoot_shRoot : IsRoot shWorld (userCaller 501) shRoot :=
  ⟨rfl, rfl, procfsStructureRootNode_eq 0 2, rfl⟩

theorem isDir_shRoot (oids : List SysctlOid) : shRoot.IsDir oids :=
  .of_ne_sysctl rfl (by decide) oids

theorem reach_shRoot : Reach shWorld.tree (userCaller 501).pmp shRoot :=
  Reach.root shWorld ⟨501, 12⟩ rfl isRoot_shRoot

/-- The owner of the shell reads the root to the end and finds the shell. -/
theorem completeReading_lists_processes_sh :
    ∃ calls entries, CompleteReading shWorld (userCaller 501) shRoot calls entries ∧
      ListsProcesses shWorld (userCaller 501) entries := by
  -- there is one process, far fewer than the array holds
  have hlive : ∀ pid p, shWorld.procs.procFind pid = some p → pid = 7 := by
    intro pid p hp
    simp only [shWorld, ProcTable.single, Option.ite_none_right_eq_some] at hp
    exact hp.1
  have hfew : {pid | MaySee shWorld (userCaller 501) pid}.ncard ≤ procfsMaxProcs := by
    have hsub : {pid | MaySee shWorld (userCaller 501) pid} ⊆ {7} := by
      rintro pid ⟨p, hp, -⟩
      exact hlive pid p hp
    have hle := Set.ncard_le_ncard hsub
    rw [Set.ncard_singleton] at hle
    exact hle.trans (by decide)
  obtain ⟨calls, hreading⟩ := exists_completeReading (c := userCaller 501) rfl shRoot_mem
    (isDir_shRoot _)
  refine ⟨calls, _, hreading, ?_⟩
  refine (completeReading_lists_processes_iff ?_ rfl isRoot_shRoot rfl
    hreading).mpr hfew
  intro pid p hp
  rw [hlive pid p hp]
  decide

/-- A process table with the pids from 0 to 1024. -/
def crowdedProcs : ProcTable where
  procFind pid := if 0 ≤ pid ∧ pid ≤ 1024 then some { shProc with pPid := pid } else none
  pid_eq pid p hp := by
    rw [Option.ite_none_right_eq_some] at hp
    rw [← Option.some.inj hp.2]
  pid_nonneg pid p hp := by
    rw [Option.ite_none_right_eq_some] at hp
    exact hp.1.1

/-- With one process more than the scan has room for, a complete reading of the
root by the superuser leaves a live process out. -/
theorem completeReading_misses_process :
    ∃ calls entries, CompleteReading { shWorld with procs := crowdedProcs } (userCaller 0) shRoot
        calls entries ∧
      ¬ ListsProcesses { shWorld with procs := crowdedProcs } (userCaller 0) entries := by
  have hmax : ∀ pid p, crowdedProcs.procFind pid = some p → pid.toInt ≤ procfsMaxPid := by
    intro pid p hp
    simp only [crowdedProcs, Option.ite_none_right_eq_some] at hp
    have hle : pid.toInt ≤ (1024 : Int32).toInt := Int32.le_iff_toInt_le.mp hp.1.2
    exact hle.trans (by decide)
  -- 1025 processes, which the superuser may all see
  have hmany : procfsMaxProcs <
      (visiblePids crowdedProcs (scanCred (userCaller 0))).length := by
    have hsub : List.Subperm ((List.range 1025).map Int32.ofNat)
        (visiblePids crowdedProcs (scanCred (userCaller 0))) := by
      apply List.subperm_of_subset
      · -- their numbers are different
        apply List.Nodup.map_on _ List.nodup_range
        intro a ha b hb heq
        rw [List.mem_range] at ha hb
        have htoInt := congrArg Int32.toInt heq
        rw [Int32.toInt_ofNat_of_lt (by omega), Int32.toInt_ofNat_of_lt (by omega)] at htoInt
        omega
      · -- and each of them is alive
        intro pid hpid
        obtain ⟨n, hn, rfl⟩ := List.mem_map.mp hpid
        rw [List.mem_range] at hn
        have htoInt : (Int32.ofNat n).toInt = n := Int32.toInt_ofNat_of_lt (by omega)
        have hrange : 0 ≤ Int32.ofNat n ∧ Int32.ofNat n ≤ 1024 := by
          rw [Int32.le_iff_toInt_le, Int32.le_iff_toInt_le, htoInt]
          have h0 : (0 : Int32).toInt = 0 := rfl
          have h1024 : (1024 : Int32).toInt = 1024 := rfl
          omega
        rw [mem_visiblePids (hmax _)]
        exact ⟨_, if_pos hrange, rfl⟩
    have hlen := hsub.length_le
    rw [List.length_map, List.length_range] at hlen
    have hprocs : procfsMaxProcs = 1024 := rfl
    omega
  obtain ⟨calls, hreading⟩ := exists_completeReading (w := { shWorld with procs := crowdedProcs })
    (c := userCaller 0) rfl shRoot_mem
    (isDir_shRoot _)
  refine ⟨calls, _, hreading, ?_⟩
  rw [listsProcesses_dirListing_iff hmax rfl
    ⟨rfl, rfl, procfsStructureRootNode_eq 0 2, rfl⟩ rfl]
  exact not_le.mpr hmany

end ProcFS
