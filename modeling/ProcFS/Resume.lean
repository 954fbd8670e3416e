import ProcFS.Lib.Runs
import ProcFS.Listing

/-!
# ProcFS.Resume — reading a directory call by call

Every entry of a listing fits into a record, so the records of a page can be read back
into entries. A reader that resumes at the offset of the last call, or at the position
stored in the last record, gets the listing in order; the law is that of paging
(`ProcFS.Lib.Paging`).

* `dirListing_fits`: every entry fits into a record.
* `readdirStep_synced`: one call keeps the reader in step with the listing.
* `readdirCalls_resume`: the resume law of readdir.
-/

namespace ProcFS

/-! ## Every entry fits into a record -/

/-- The type and the name of an entry fit into the fields of a record. -/
def Entry.Fits (e : Entry) : Prop := e.type < 2 ^ 8 ∧ e.name.length < maxpathlen

theorem length_fmtInt_le {n : ℤ} (h : n.natAbs < 10 ^ 20) : (fmtInt n).length ≤ 21 := by
  have hnat : (fmtNat n.natAbs).length ≤ 20 := by
    rw [fmtNat, List.length_map]
    exact (Nat.length_toDigits_le_iff (by decide) (by decide)).mpr h
  have hminus : (cstr "-").length = 1 := rfl
  unfold fmtInt
  split
  · rw [List.length_append, hminus]
    omega
  · omega

theorem vdir_lt : Vtype.VDIR.toNat < 2 ^ 8 := by decide

/-- The entries of processes, threads and descriptors have numbers for names. -/
theorem Entry.fits_number {n : ℤ} (hn : n.natAbs < 10 ^ 20) (fileId : UInt64) :
    Entry.Fits ⟨Vtype.VDIR.toNat, fileId, fmtInt n⟩ := by
  have hlen := length_fmtInt_le hn
  have hmax : maxpathlen = 1024 := rfl
  exact ⟨vdir_lt, by simp only; omega⟩

theorem staticType_lt (type : PfsType) : staticType type < 2 ^ 8 := by
  cases type <;> decide

variable {w : World} {c : Caller} {s : Pfssnode} {e : Entry} {dir : Pfsnode}

theorem pidEntries_fits (h : e ∈ pidEntries w c s) : e.Fits := by
  obtain ⟨pid, hpid, he⟩ := List.mem_filterMap.mp h
  obtain ⟨name, hname, rfl⟩ := Option.map_eq_some_iff.mp he
  refine ⟨vdir_lt, ?_⟩
  have hmax : maxpathlen = 1024 := rfl
  unfold pidName at hname
  split at hname
  · -- in `byname` the entry has the command as well
    obtain ⟨p, hp, rfl⟩ := Option.map_eq_some_iff.mp hname
    have hnonneg : 0 ≤ p.pPid := by
      rw [w.procs.pid_eq pid p hp]
      exact w.procs.pid_nonneg pid p hp
    have hlen := (processEntryName_digit .procnamedir hnonneg).2
    have hcom : maxcomlen = 16 := rfl
    rw [processEntryName, if_pos rfl] at hlen
    simp only
    omega
  · -- elsewhere it is the number alone
    cases hname
    have hlt : pid.toInt < 2 ^ 31 := Int32.toInt_lt pid
    have hge : -2 ^ 31 ≤ pid.toInt := Int32.le_toInt pid
    exact (Entry.fits_number (by omega) _).2

theorem threadEntries_fits {ids : List UInt64} (h : e ∈ threadEntries dir s ids) : e.Fits := by
  obtain ⟨id, -, rfl⟩ := List.mem_map.mp h
  have hlt : id.toInt64.toInt < 2 ^ 63 := Int64.toInt_lt _
  have hge : -2 ^ 63 ≤ id.toInt64.toInt := Int64.le_toInt _
  exact Entry.fits_number (by omega) _

theorem fdEntries_fits {fds : List Int32} (h : e ∈ fdEntries dir s fds) : e.Fits := by
  obtain ⟨fd, -, rfl⟩ := List.mem_map.mp h
  have hlt : fd.toInt < 2 ^ 31 := Int32.toInt_lt fd
  have hge : -2 ^ 31 ≤ fd.toInt := Int32.le_toInt fd
  exact Entry.fits_number (by omega) _

theorem childEntries_fits (hname : s.psnName.length < maxpathlen) (h : e ∈ childEntries w c dir s) :
    e.Fits := by
  unfold childEntries at h
  -- by the kind of the child
  split at h
  · cases h
  · exact pidEntries_fits h
  · exact pidEntries_fits h
  · exact threadEntries_fits h
  · split at h
    · cases h
    · exact fdEntries_fits h
  · rw [List.mem_singleton] at h
    subst h
    exact ⟨staticType_lt _, hname⟩

/-- On a built tree every entry of every listing fits into a record. -/
theorem dirListing_fits {build : ℕ} {next : UInt16}
    (htree : w.tree = procfsStructureInit build next) (hdir : dir.nodeStructureNode ∈ w.tree.nodes)
    (h : e ∈ dirListing w c dir) : e.Fits := by
  unfold dirListing at h
  split at h
  · -- below `/proc/sys`: the two dots, and then the oids
    rcases List.mem_append.mp h with h | h
    · simp only [sysctlDots, List.mem_cons, List.not_mem_nil, or_false] at h
      rcases h with rfl | rfl <;> exact ⟨by simp [dtDir], by simp [cstr, maxpathlen]⟩
    · obtain ⟨child, -, rfl⟩ := List.mem_map.mp h
      refine ⟨?_, child.name.fits⟩
      simp only [sysctlEntry]
      split <;> decide
  · -- elsewhere the names are those of the tree
    have hok := procfsStructureInit_childrenOk (htree ▸ hdir)
    rw [← htree] at hok
    obtain ⟨-, hnames, -⟩ := childrenOk_iff.mp hok
    unfold childrenEntries at h
    split at h
    · obtain ⟨s, hs, he⟩ := List.mem_flatMap.mp h
      have hlen := (hnames s (List.mem_of_mem_filter hs)).2.2
      have hmax : maxStructNodeNameLen ≤ maxpathlen := by decide
      exact childEntries_fits (by omega) he
    · cases h

/-! ## Reading a directory call by call -/

/-- A readdir call of a reader: its buffer, and which position it resumes at. -/
structure ReaddirCall where
  room : ℕ
  resume : RecordFormat.Resume
deriving DecidableEq, Repr

/-- The reader after one more call; nothing when the call never returns. -/
def readdirStep (w : World) (c : Caller) (dir : Pfsnode)
    (cur : RecordFormat.Cursor Direntry) (call : ReaddirCall) :
    Option (RecordFormat.Cursor Direntry) :=
  (procfsVnopReaddir w c dir (direntFormat.start cur call.resume) call.room).map fun r =>
    ⟨r.uioOffset, cur.got ++ r.records⟩

/-- The reader after some calls, the first at offset 0. -/
def readdirCalls (w : World) (c : Caller) (dir : Pfsnode) (calls : List ReaddirCall) :
    Option (RecordFormat.Cursor Direntry) :=
  run (readdirStep w c dir) ⟨0, []⟩ calls

/-- The entry that a record was made from. -/
def Direntry.entry (r : Direntry) : Entry := ⟨r.dType, r.dIno, r.dName⟩

/-- What a reader of a listing has when nothing was lost or repeated. -/
structure ReadsListing (listing : List Entry) (cur : RecordFormat.Cursor Direntry) : Prop where
  got_entries : cur.got.map Direntry.entry <+: listing
  seekoff_eq : ∀ i r, cur.got[i]? = some r →
    r.dSeekoff = ((cur.got.take (i + 1)).map Direntry.dReclen).sum
  offset_eq : cur.offset = (cur.got.map Direntry.dReclen).sum
  reclen_ok : ∀ r ∈ cur.got, 8 ∣ r.dReclen ∧ r.dNamlen = r.dName.length ∧
    direntNameOffset + r.dName.length + 1 ≤ r.dReclen

theorem procfsCalcDirentSize_lt {name : CString} (h : name.length < maxpathlen) :
    procfsCalcDirentSize name < 2 ^ 16 := by
  have hmax : maxpathlen = 1024 := rfl
  unfold procfsCalcDirentSize direntFixedSize
  omega

theorem direntryOf_entry (h : e.Fits) (seekoff : ℕ) : (direntryOf e seekoff).entry = e := by
  have htype : e.type % 2 ^ 8 = e.type := Nat.mod_eq_of_lt h.1
  simp only [direntryOf, Direntry.entry, htype]

theorem direntryOf_reclen (h : e.Fits) (seekoff : ℕ) :
    (direntryOf e seekoff).dReclen = direntFormat.size e :=
  Nat.mod_eq_of_lt (procfsCalcDirentSize_lt h.2)

/-- The records of entries that fit give the entries and their sizes back. -/
theorem records_map {xs : List Entry} (h : ∀ e ∈ xs, e.Fits) (pos : ℕ) :
    (direntFormat.records pos xs).map Direntry.entry = xs ∧
    (direntFormat.records pos xs).map Direntry.dReclen = xs.map direntFormat.size := by
  induction xs generalizing pos with
  | nil => exact ⟨rfl, rfl⟩
  | cons e xs ih =>
    have he := h e List.mem_cons_self
    obtain ⟨hentries, hreclens⟩ :=
      ih (fun e' he' => h e' (List.mem_cons_of_mem e he')) (pos + direntFormat.size e)
    constructor
    · rw [RecordFormat.records, List.map_cons, hentries]
      exact congrArg (· :: xs) (direntryOf_entry he _)
    · rw [RecordFormat.records, List.map_cons, List.map_cons, hreclens]
      exact congrArg (· :: _) (direntryOf_reclen he _)

theorem mem_records {xs : List Entry} {pos : ℕ} {r : Direntry}
    (h : r ∈ direntFormat.records pos xs) : ∃ e ∈ xs, ∃ seekoff, r = direntryOf e seekoff := by
  induction xs generalizing pos with
  | nil => cases h
  | cons e xs ih =>
    rcases List.mem_cons.mp h with rfl | h
    · exact ⟨e, List.mem_cons_self, _, rfl⟩
    · obtain ⟨e', he', hr⟩ := ih h
      exact ⟨e', List.mem_cons_of_mem e he', hr⟩

/-- A reader in step with the listing has what it should have. -/
theorem ReadsListing.of_synced {listing : List Entry} (hfits : ∀ e ∈ listing, e.Fits) {n : ℕ}
    {cur : RecordFormat.Cursor Direntry} (h : direntFormat.Synced listing n cur) :
    ReadsListing listing cur := by
  have hfits' : ∀ m, ∀ e ∈ listing.take m, e.Fits := fun m e he =>
    hfits e (List.mem_of_mem_take he)
  refine ⟨?_, ?_, ?_, ?_⟩
  · -- the names: a beginning of the listing
    rw [h.got_eq, (records_map (hfits' n) 0).1]
    exact List.take_prefix n listing
  · -- the position in each record is the size of what comes up to it
    intro i r hr
    have hseek := direntFormat.seekoff_getElem?_records 0 (listing.take n) i
    rw [h.got_eq] at hr ⊢
    have hlt : i < (listing.take n).length := by
      rw [← direntFormat.length_records 0]
      exact (List.getElem?_eq_some_iff.mp hr).1
    rw [hr, List.getElem?_eq_getElem hlt] at hseek
    rw [direntFormat.take_records, (records_map _ 0).2]
    · simpa [direntFormat, RecordFormat.total] using hseek
    · intro e he
      exact hfits' n e (List.mem_of_mem_take he)
  · -- the offset is where the last record ends
    rw [h.offset_eq, h.got_eq, (records_map (hfits' n) 0).2]
    rfl
  · -- the length of a record is a multiple of four and leaves room for the NUL
    intro r hr
    rw [h.got_eq] at hr
    obtain ⟨e, he, seekoff, rfl⟩ := mem_records hr
    have hname := (hfits' n e he).2
    have hmax : maxpathlen = 1024 := rfl
    rw [direntryOf_reclen (hfits' n e he)]
    refine ⟨?_, Nat.mod_eq_of_lt (by omega), ?_⟩
    · simp only [direntFormat, procfsCalcDirentSize, direntFixedSize]
      omega
    · simp only [direntFormat, procfsCalcDirentSize, direntFixedSize, direntNameOffset, direntryOf]
      omega

/-- One call keeps the reader in step with the listing, and moves it on if the
next record fits. -/
theorem readdirStep_synced {build : ℕ} {next : UInt16}
    (htree : w.tree = procfsStructureInit build next) (hdir : dir.nodeStructureNode ∈ w.tree.nodes)
    (hisdir : dir.IsDir w.oids) {n : ℕ} {cur : RecordFormat.Cursor Direntry}
    (h : direntFormat.Synced (dirListing w c dir) n cur) {call : ReaddirCall}
    (hroom : 0 < call.room) :
    ∃ m cur', readdirStep w c dir cur call = some cur' ∧ n ≤ m ∧
      direntFormat.Synced (dirListing w c dir) m cur' ∧
      ((∀ e, (dirListing w c dir)[n]? = some e → procfsCalcDirentSize e.name ≤ call.room) →
        n < (dirListing w c dir).length → n < m) := by
  obtain ⟨r, hr, hoff, hrecords⟩ := procfsVnopReaddir_page (c := c) htree hdir hisdir
    (direntFormat.start cur call.resume) hroom
  obtain ⟨m, hle, hsynced, hprogress⟩ := h.add call.resume call.room
  refine ⟨m, ⟨r.uioOffset, cur.got ++ r.records⟩, ?_, hle, ?_, hprogress⟩
  · rw [readdirStep, hr]
    rfl
  · rw [hoff, hrecords]
    exact hsynced

/-- Calls with positive buffers keep the reader in step. If each buffer can hold
the next record, each call yields at least one. -/
theorem readdirCalls_synced {build : ℕ} {next : UInt16}
    (htree : w.tree = procfsStructureInit build next) (hdir : dir.nodeStructureNode ∈ w.tree.nodes)
    (hisdir : dir.IsDir w.oids) {calls : List ReaddirCall}
    (hrooms : ∀ call ∈ calls, 0 < call.room) :
    ∃ n cur, readdirCalls w c dir calls = some cur ∧
      direntFormat.Synced (dirListing w c dir) n cur ∧
      ((∀ pre call cur', pre ++ [call] <+: calls → readdirCalls w c dir pre = some cur' →
          ∀ e, (dirListing w c dir)[cur'.got.length]? = some e →
            procfsCalcDirentSize e.name ≤ call.room) →
        min calls.length (dirListing w c dir).length ≤ n) := by
  induction calls using List.reverseRecOn with
  | nil => exact ⟨0, _, rfl, direntFormat.synced_init _, fun _ => by simp⟩
  | append_singleton calls call ih =>
    -- the last call starts from where the others have led
    obtain ⟨n, cur, hcur, hsynced, hcount⟩ := ih fun call' hcall' =>
      hrooms call' (List.mem_append_left _ hcall')
    have hroom : 0 < call.room := hrooms call (by simp)
    obtain ⟨m, cur', hstep, hle, hsynced', hprogress⟩ :=
      readdirStep_synced htree hdir hisdir hsynced hroom
    refine ⟨m, cur', run_concat.mpr ⟨cur, hcur, hstep⟩, hsynced', ?_⟩
    intro hfits
    have hn := hcount fun pre call' cur'' hpre =>
      hfits pre call' cur'' (hpre.trans (List.prefix_append calls [call]))
    have hlen : cur.got.length = n := by
      rw [hsynced.got_eq, direntFormat.length_records, List.length_take]
      exact min_eq_left hsynced.le
    have hnext := hfits calls call cur List.prefix_rfl hcur
    rw [hlen] at hnext
    -- there is an entry left, so the call yields one; otherwise all of them are there
    by_cases hlt : n < (dirListing w c dir).length
    · have hm := hprogress hnext hlt
      rw [List.length_append, List.length_singleton]
      omega
    · have hm := hsynced'.le
      omega

/-- The resume law of readdir. For every directory of a built tree and every
sequence of calls with positive buffers, the first at offset 0 and each later one
at the offset left by the call before or at the `d_seekoff` of the last record:
every call returns; the records are those of the listing in order, and offsets
and record lengths add up; and as many calls as there are entries, each with room
for the next record, return the complete listing. -/
theorem readdirCalls_resume {w : World} {c : Caller} {dir : Pfsnode} {build : ℕ}
    {next : UInt16} (htree : w.tree = procfsStructureInit build next)
    (hdir : dir.nodeStructureNode ∈ w.tree.nodes) (hisdir : dir.IsDir w.oids)
    {calls : List ReaddirCall} (hrooms : ∀ call ∈ calls, 0 < call.room) :
    ∃ cur, readdirCalls w c dir calls = some cur ∧ ReadsListing (dirListing w c dir) cur ∧
      ((∀ pre call cur', pre ++ [call] <+: calls → readdirCalls w c dir pre = some cur' →
          ∀ e, (dirListing w c dir)[cur'.got.length]? = some e →
            procfsCalcDirentSize e.name ≤ call.room) →
        (dirListing w c dir).length ≤ calls.length →
        cur.got.map Direntry.entry = dirListing w c dir) := by
  obtain ⟨n, cur, hcur, hsynced, hcount⟩ := readdirCalls_synced (c := c) htree hdir hisdir hrooms
  have hfits : ∀ e ∈ dirListing w c dir, e.Fits := fun e he => dirListing_fits htree hdir he
  refine ⟨cur, hcur, ReadsListing.of_synced hfits hsynced, ?_⟩
  intro hnext hcalls
  have hn : n = (dirListing w c dir).length := by
    have hle := hsynced.le
    have hmin := hcount hnext
    omega
  rw [hsynced.got_eq, hn, List.take_length]
  exact (records_map hfits 0).1

/-- Four calls, each with room for one record, list `/proc/tty`. -/
theorem readdirCalls_resume_tty :
    ∃ cur, readdirCalls shWorld (userCaller 501)
        ⟨1, ⟨prnodeNoPid, 0, 52⟩, ⟨0, 51, .dir, cstr "tty", 52, 0, some 0⟩, 0, .VDIR⟩
        [⟨40, .offset⟩, ⟨40, .lastRecord⟩, ⟨40, .offset⟩, ⟨40, .lastRecord⟩] = some cur ∧
      cur.got.map Direntry.dName = [cstr ".", cstr "..", cstr "drivers", cstr "ldiscs"] := by
  let dir : Pfsnode := ⟨1, ⟨prnodeNoPid, 0, 52⟩, ⟨0, 51, .dir, cstr "tty", 52, 0, some 0⟩, 0, .VDIR⟩
  have hdir : dir.nodeStructureNode ∈ shWorld.tree.nodes := by decide +kernel
  have hrooms : ∀ call ∈ ([⟨40, .offset⟩, ⟨40, .lastRecord⟩, ⟨40, .offset⟩, ⟨40, .lastRecord⟩] :
      List ReaddirCall), 0 < call.room := by decide
  have hnames : (dirListing shWorld (userCaller 501) dir).map Entry.name =
      [cstr ".", cstr "..", cstr "drivers", cstr "ldiscs"] := by decide +kernel
  obtain ⟨cur, hcur, -, hall⟩ :=
    readdirCalls_resume rfl hdir (.of_ne_sysctl rfl (by decide) _) hrooms
  refine ⟨cur, hcur, ?_⟩
  have hgot := hall ?_ ?_
  · -- the four names
    rw [← hnames, ← hgot, List.map_map]
    rfl
  · -- the largest of the four records fits into 40 bytes
    intro pre call cur' hpre _ e he
    have hcall : call ∈ ([⟨40, .offset⟩, ⟨40, .lastRecord⟩, ⟨40, .offset⟩, ⟨40, .lastRecord⟩] :
        List ReaddirCall) := hpre.subset (by simp)
    have hname : e.name ∈ [cstr ".", cstr "..", cstr "drivers", cstr "ldiscs"] := by
      rw [← hnames]
      exact List.mem_map_of_mem (List.mem_of_getElem? he)
    have hsizes : ∀ name ∈ [cstr ".", cstr "..", cstr "drivers", cstr "ldiscs"],
        procfsCalcDirentSize name ≤ 40 := by decide
    have hroom : call.room = 40 := by
      simp only [List.mem_cons, List.not_mem_nil, or_false] at hcall
      rcases hcall with rfl | rfl | rfl | rfl <;> rfl
    rw [hroom]
    exact hsizes e.name hname
  · have hlen := congrArg List.length hnames
    rw [List.length_map] at hlen
    exact le_of_eq hlen

end ProcFS
