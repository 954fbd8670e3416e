import ProcFS.Agreement

/-!
# ProcFS.Eof — when readdir reports the end of a directory

`a_eofflag` says whether `snode` is NULL after the loop, so it depends on how each branch leaves
the loop. The branch for processes moves `snode` on when every process was copied out. Those for
threads and for descriptors leave the loop without moving it, whatever they copied out: in the
directories that list these the flag is never set.

* `CallEnds.allBefore_iff`: the offset is behind every entry if and only if the walk was done.
* `eofflag_exact_iff`: in which directories the flag is right in every call.
-/

namespace ProcFS

/-- Every entry of a directory lies before an offset. -/
def AllBefore (w : World) (c : Caller) (dir : Pfsnode) (offset : ℕ) : Prop :=
  ∀ i < (dirListing w c dir).length, direntFormat.total ((dirListing w c dir).take i) < offset

instance (w : World) (c : Caller) (dir : Pfsnode) (offset : ℕ) :
    Decidable (AllBefore w c dir offset) :=
  inferInstanceAs (Decidable (∀ i < (dirListing w c dir).length, _))

/-- The bytes of the buffer that a call used. -/
def ReaddirReply.used (r : ReaddirReply) : ℕ := (r.records.map Direntry.dReclen).sum

/-- The flag is right: a successful call that sets it left an offset behind every entry, and one
that left such an offset and unused space sets it. -/
def EofExact (w : World) (c : Caller) (dir : Pfsnode) : Prop :=
  ∀ startpos room r, 0 < room → procfsVnopReaddir w c dir startpos room = some r →
    r.error = none →
    (r.eofflag = true → AllBefore w c dir r.uioOffset) ∧
      (AllBefore w c dir r.uioOffset → r.used < room → r.eofflag = true)

section

variable {w : World} {c : Caller} {build : ℕ} {next : UInt16} {dir : Pfsnode}

/-- The offset lies behind every entry if and only if the walk over the listing was done. -/
theorem CallEnds.allBefore_iff {startpos room : ℕ} {r : ReaddirReply}
    (h : CallEnds w c dir startpos room r) :
    AllBefore w c dir r.uioOffset ↔
      (direntFormat.putAll startpos (dirListing w c dir) ⟨0, room, []⟩).2 = true := by
  rcases direntFormat.putAll_pos startpos (dirListing w c dir) ⟨0, room, []⟩ with
    ⟨k, hk, hpos, hdone⟩
  have hoffset : r.uioOffset = direntFormat.total ((dirListing w c dir).take k) := by
    rw [h.offset_eq, RecordFormat.page, hpos, Nat.zero_add]
  rw [AllBefore, hoffset, direntFormat.total_take_lt_iff hk, hdone]

/-- The space that is left is that which was not used. -/
theorem CallEnds.used_add_room {startpos room : ℕ} {r : ReaddirReply}
    (h : CallEnds w c dir startpos room r) (htree : w.tree = procfsStructureInit build next)
    (hdir : dir.nodeStructureNode ∈ w.tree.nodes) :
    (direntFormat.page (dirListing w c dir) startpos room).room + r.used = room := by
  have hused : ∀ e ∈ dirListing w c dir, ∀ pos,
      (direntFormat.record e pos).dReclen = direntFormat.size e :=
    fun e he pos => direntryOf_reclen (dirListing_fits htree hdir he) pos
  have hroom := direntFormat.putAll_room Direntry.dReclen hused startpos ⟨0, room, []⟩
  rw [ReaddirReply.used, h.records_eq, RecordFormat.page, hroom]
  rfl

/-- A child at which `snode` stays is the only one of its kind. -/
theorem eq_of_keepsSnode (htree : w.tree = procfsStructureInit build next)
    (hdir : dir.nodeStructureNode ∈ w.tree.nodes) {s s' : Pfssnode}
    (hs : s ∈ w.tree.children dir.nodeStructureNode)
    (hs' : s' ∈ w.tree.children dir.nodeStructureNode) (hkeeps : s.psnNodeType.keepsSnode = true)
    (hkeeps' : s'.psnNodeType.keepsSnode = true) : s' = s := by
  rw [htree] at hdir hs hs'
  obtain ⟨skipped, hchildren, hskipped⟩ :=
    children_listing hdir hs (PfsType.isListing_of_keepsSnode hkeeps)
  rw [hchildren, List.mem_append, List.mem_singleton] at hs'
  rcases hs' with hs' | hs'
  · have hstatic := hskipped s' hs'
    rw [PfsType.isListing_of_keepsSnode hkeeps'] at hstatic
    cases hstatic
  · exact hs'

/-- For every directory, caller and world: the flag is right in every successful call, at any
offset and with any positive room, exactly when the directory does not list threads or
descriptors, or lists nothing for the caller, or cannot obtain the list. -/
theorem eofflag_exact_iff (htree : w.tree = procfsStructureInit build next)
    (hdir : dir.nodeStructureNode ∈ w.tree.nodes) (hisdir : dir.IsDir w.oids) :
    EofExact w c dir ↔ ¬ (dirVisible w c dir = true ∧
      ∃ s ∈ w.tree.children dir.nodeStructureNode, s.psnNodeType.keepsSnode = true ∧
        objectsError w dir s = none) := by
  constructor
  · rintro h ⟨hvisible, s, hs, hkeeps, hobtained⟩
    -- a call at the start with a byte to spare
    have hroom : 0 < direntFormat.total (dirListing w c dir) + 1 := Nat.succ_pos _
    obtain ⟨r, hr, hends⟩ := @procfsVnopReaddir_ends w c dir build next htree hdir hisdir 0 _ hroom
    have hwalk := @RecordFormat.putAll_all _ _ direntFormat 0 (dirListing w c dir)
      ⟨0, direntFormat.total (dirListing w c dir) + 1, []⟩ (Nat.le_refl 0) (Nat.le_succ _)
    have hdone : (direntFormat.putAll 0 (dirListing w c dir)
        ⟨0, direntFormat.total (dirListing w c dir) + 1, []⟩).2 = true := by rw [hwalk]
    have hleft : (direntFormat.page (dirListing w c dir) 0
        (direntFormat.total (dirListing w c dir) + 1)).room = 1 := by
      rw [RecordFormat.page, hwalk]
      exact Nat.add_sub_cancel_left _ 1
    have hused := hends.used_add_room htree hdir
    rcases hends.end_of_done hdone (by omega) with ⟨-, hnone⟩ | ⟨-, s', hs', hkeeps', hend⟩
    · have hshown := ((layoutOk_of_mem htree hdir).site s hs).listing_shown
        (PfsType.isListing_of_keepsSnode hkeeps) w.linuxVersion
      rw [hnone hvisible s hs hshown] at hkeeps
      cases hkeeps
    · rw [eq_of_keepsSnode htree hdir hs hs' hkeeps hkeeps', hobtained, Prod.mk.injEq] at hend
      have heof := (h 0 _ r hroom hr hend.1).2 (hends.allBefore_iff.mpr hdone) (by omega)
      rw [hend.2] at heof
      cases heof
  · intro h startpos room r hroom hr hok
    obtain ⟨r', hr', hends⟩ :=
      @procfsVnopReaddir_ends w c dir build next htree hdir hisdir startpos room hroom
    rw [hr] at hr'
    cases hr'
    have hused := hends.used_add_room htree hdir
    refine ⟨fun heof => hends.allBefore_iff.mpr (hends.done_of_eof heof), fun hall hspare => ?_⟩
    rcases hends.end_of_done (hends.allBefore_iff.mp hall) (by omega) with
      ⟨hend, -⟩ | ⟨hvisible, s, hs, hkeeps, hend⟩
    · exact congrArg Prod.snd hend
    · -- the branch ended with an error
      have herror : r.error = objectsError w dir s := congrArg Prod.fst hend
      rw [hok] at herror
      exact absurd ⟨hvisible, s, hs, hkeeps, herror.symm⟩ h

end

/-- In the root of the file system the flag is right. -/
theorem eofflag_exact_shRoot : EofExact shWorld (userCaller 501) shRoot := by
  have hkinds : ∀ s ∈ shWorld.tree.children shRoot.nodeStructureNode,
      s.psnNodeType.keepsSnode = false := by decide +kernel
  refine (eofflag_exact_iff rfl shRoot_mem (isDir_shRoot _)).mpr ?_
  rintro ⟨-, s, hs, hkeeps, -⟩
  rw [hkinds s hs] at hkeeps
  cases hkeeps

/-- The threads of the shell, read into a page: everything is there and most of the page is
unused, but the flag is not set. -/
theorem threads_eof_missing :
    ∃ r, Reach shWorld.tree (userCaller 501).pmp shThreads ∧
      procfsVnopReaddir shWorld (userCaller 501) shThreads 0 4096 = some r ∧ r.error = none ∧
      AllBefore shWorld (userCaller 501) shThreads r.uioOffset ∧ r.used = 128 ∧
      r.eofflag = false := by
  have hcall : (procfsVnopReaddir shWorld (userCaller 501) shThreads 0 4096).any (fun r =>
      r.error = none ∧ AllBefore shWorld (userCaller 501) shThreads r.uioOffset ∧ r.used = 128 ∧
        r.eofflag = false) = true := by decide +kernel
  rcases (Option.any_eq_true _ _).mp hcall with ⟨r, hr, hend⟩
  exact ⟨r, reach_shThreads, hr, of_decide_eq_true hend⟩

end ProcFS
