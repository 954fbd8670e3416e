import ProcFS.Layout
import ProcFS.Readdir

/-!
# ProcFS.Listing — what a directory lists

A directory has one *listing*: the entries that a caller could get from it, in
order. The four emission loops of `readdir` are shown to be one walk over that
list (`LoopEnds`): they copy out what the walk does, they report the end only
when the walk was done, and when it was and there is room left, the branch that
ended the loop decides about the error and the flag (`WalkEnd`).

* `readdirLoop_ends`: the main loop is a walk over the entries of the children.
* `sysctlReaddirLoop_ends`: so is the loop over the sysctl children.
* `procfsVnopReaddir_page`: what a call returns is a page of the listing.
-/

namespace ProcFS

/-! ## The listing of a directory -/

/-- The threads that are listed: none when there is no process or no list. -/
def listedThreads (w : World) (pid : Int32) : List UInt64 :=
  match w.procs.procFind pid with
  | none => []
  | some p =>
    match procfsGetThreadIdsForTask w.mem p with
    | .ok ids => ids
    | .error _ => []

/-- Everything there is to list for a child. -/
def childEntries (w : World) (c : Caller) (dir : Pfsnode) (s : Pfssnode) : List Entry :=
  match s.psnNodeType with
  | .root => []
  | .proc | .procnamedir => pidEntries w c s
  | .thread => threadEntries dir s (listedThreads w dir.nodeId.nodeidPid)
  | .fd =>
    match w.procs.procFind dir.nodeId.nodeidPid with
    | none => []
    | some p => fdEntries dir s (listedFds w p)
  | _ => [staticEntry w dir s]

/-- Everything there is to list for some children. -/
def childrenEntries (w : World) (c : Caller) (dir : Pfsnode) (children : List Pfssnode) :
    List Entry :=
  if dirVisible w c dir then
    (children.filter fun s => !procfsNodeVersionHidden w.linuxVersion s.psnName).flatMap
      (childEntries w c dir)
  else []

def dirListing (w : World) (c : Caller) (dir : Pfsnode) : List Entry :=
  if dir.nodeStructureNode.psnNodeType = .sysctl then
    sysctlDots dir ++ (sysctlListing w.oids dir.nodeId.nodeidObjectid).map (sysctlEntry dir)
  else childrenEntries w c dir (w.tree.children dir.nodeStructureNode)

/-! ## The loops walk over the listing -/

/-- A call in progress has passed its start, or still has room. -/
def Going (startpos : ℕ) (p : Page Direntry) : Prop := startpos ≤ p.pos ∨ 0 < p.room

theorem Going.put {startpos : ℕ} {p p' : Page Direntry} {e : Entry} (h : Going startpos p)
    (hput : direntFormat.put startpos e p = (p', true)) : Going startpos p' := by
  unfold RecordFormat.put at hput
  split_ifs at hput with hstart hfits
  · cases hput
    exact Or.inl (Nat.le_add_right_of_le hstart)
  · cases hput
  · cases hput
    right
    rcases h with h | h
    · exact absurd h hstart
    · exact h

variable {startpos : ℕ} {p : Page Direntry} {w : World} {c : Caller} {dir : Pfsnode} {s : Pfssnode}

theorem Going.putAll {p p' : Page Direntry} {xs : List Entry} (h : Going startpos p)
    (hput : direntFormat.putAll startpos xs p = (p', true)) : Going startpos p' := by
  induction xs generalizing p with
  | nil =>
    cases hput
    exact h
  | cons e xs ih =>
    rw [RecordFormat.putAll] at hput
    -- the walk goes on after each entry, so each of them left it going
    cases hfirst : direntFormat.put startpos e p with
    | mk q ok =>
      rw [hfirst] at hput
      cases ok with
      | true => exact ih (h.put hfirst) hput
      | false => cases hput

/-- A loop that stops because the buffer is full stops where the walk does. -/
theorem Going.putAll_of_full (h : Going startpos p) (hroom : p.room = 0) (xs : List Entry) :
    (direntFormat.putAll startpos xs p).1 = p := by
  apply RecordFormat.putAll_full
  · rcases h with h | h
    · exact h
    · omega
  · exact hroom

theorem childrenEntries_cons_hidden (h : procfsNodeVersionHidden w.linuxVersion s.psnName = true)
    (rest : List Pfssnode) :
    childrenEntries w c dir (s :: rest) = childrenEntries w c dir rest := by
  simp [childrenEntries, h]

theorem childrenEntries_cons (hvisible : dirVisible w c dir = true)
    (h : procfsNodeVersionHidden w.linuxVersion s.psnName = false) (rest : List Pfssnode) :
    childrenEntries w c dir (s :: rest) =
      childEntries w c dir s ++ childrenEntries w c dir rest := by
  simp [childrenEntries, h, hvisible]

theorem childrenEntries_nil (w : World) (c : Caller) (dir : Pfsnode) :
    childrenEntries w c dir [] = [] := by
  simp [childrenEntries]

/-- The types whose branch ends the loop with `snode` still at the child. -/
def PfsType.keepsSnode : PfsType → Bool
  | .thread | .fd => true
  | _ => false

/-- The error of such a branch: no process, or no list of threads. -/
def objectsError (w : World) (dir : Pfsnode) (s : Pfssnode) : Option Errno :=
  match w.procs.procFind dir.nodeId.nodeidPid with
  | none => some .ENOENT
  | some proc =>
    if s.psnNodeType = .thread then
      match procfsGetThreadIdsForTask w.mem proc with
      | .ok _ => none
      | .error e => some e
    else none

/-- How the loop ends when it went over all children: without an error and at the end, unless
the last of those that are shown is one at which `snode` stays. -/
def WalkEnd (w : World) (c : Caller) (dir : Pfsnode) (children : List Pfssnode)
    (e : Option Errno × Bool) : Prop :=
  (e = (none, true) ∧ (dirVisible w c dir = true → ∀ s ∈ children,
    procfsNodeVersionHidden w.linuxVersion s.psnName = false → s.psnNodeType.keepsSnode = false)) ∨
  (dirVisible w c dir = true ∧ ∃ s ∈ children, s.psnNodeType.keepsSnode = true ∧
    e = (objectsError w dir s, false))

/-- What the loop over the children does, against a walk over their entries. -/
structure LoopEnds (w : World) (c : Caller) (dir : Pfsnode) (startpos : ℕ)
    (children : List Pfssnode) (p : Page Direntry) (r : LoopEnd) : Prop where
  page_eq : r.1 = (direntFormat.putAll startpos (childrenEntries w c dir children) p).1
  done_of_eof : r.2.2 = true →
    (direntFormat.putAll startpos (childrenEntries w c dir children) p).2 = true
  end_of_done : (direntFormat.putAll startpos (childrenEntries w c dir children) p).2 = true →
    0 < r.1.room → WalkEnd w c dir children r.2

/-- The branches for threads and for descriptors go over the entries, whatever the end. -/
theorem readdirThreads_eq (w : World) (c : Caller) (dir : Pfsnode) (startpos : ℕ)
    (htype : s.psnNodeType = .thread) (p : Page Direntry) :
    readdirThreads w dir startpos s p =
      ((direntFormat.putAll startpos (childEntries w c dir s) p).1, objectsError w dir s,
        false) := by
  simp only [readdirThreads, childEntries, objectsError, htype, listedThreads, if_true]
  cases w.procs.procFind dir.nodeId.nodeidPid with
  | none => rfl
  | some proc =>
    simp only
    cases procfsGetThreadIdsForTask w.mem proc <;> rfl

theorem readdirFds_eq (w : World) (c : Caller) (dir : Pfsnode) (startpos : ℕ)
    (htype : s.psnNodeType = .fd) (p : Page Direntry) :
    readdirFds w dir startpos s p =
      ((direntFormat.putAll startpos (childEntries w c dir s) p).1, objectsError w dir s,
        false) := by
  simp only [readdirFds, childEntries, objectsError, htype, reduceCtorEq, if_false]
  cases w.procs.procFind dir.nodeId.nodeidPid <;> rfl

/-- A child that stands for many entries ends the loop, after a walk over them. -/
theorem readdirLoop_listing (hlisting : s.psnNodeType.isListing = true) (hroom : p.room ≠ 0)
    (hhidden : procfsNodeVersionHidden w.linuxVersion s.psnName = false)
    (hvisible : dirVisible w c dir = true) :
    ∃ r, readdirLoop w c dir startpos [s] p = some r ∧ LoopEnds w c dir startpos [s] p r := by
  have hentries : childrenEntries w c dir [s] = childEntries w c dir s := by
    rw [childrenEntries_cons hvisible hhidden, childrenEntries_nil, List.append_nil]
  -- where `snode` moves on, the flag says whether all entries were copied out
  have hpids : s.psnNodeType.keepsSnode = false → childEntries w c dir s = pidEntries w c s →
      LoopEnds w c dir startpos [s] p (readdirPids w c startpos s true p) := by
    intro hkeeps hpids
    refine ⟨by rw [hentries, hpids]; rfl, fun heof => ?_, fun hdone _ => ?_⟩
    · rw [hentries, hpids]
      simpa [readdirPids] using heof
    · rw [hentries, hpids] at hdone
      refine Or.inl ⟨by simp [readdirPids, hdone], fun _ s' hs' _ => ?_⟩
      rw [List.mem_singleton.mp hs', hkeeps]
  have hkept : s.psnNodeType.keepsSnode = true → LoopEnds w c dir startpos [s] p
      ((direntFormat.putAll startpos (childEntries w c dir s) p).1, objectsError w dir s,
        false) := by
    intro hkeeps
    refine ⟨by rw [hentries], Bool.noConfusion, fun _ _ => ?_⟩
    exact Or.inr ⟨hvisible, s, List.mem_singleton_self s, hkeeps, rfl⟩
  simp only [readdirLoop, if_neg hroom, hhidden, hvisible, if_true, Bool.false_eq_true, if_false]
  rcases PfsType.isListing_iff.mp hlisting with (htype | htype) | htype | htype
  · rw [htype]
    exact ⟨_, rfl, hpids (by rw [htype]; rfl) (by simp only [childEntries, htype])⟩
  · rw [htype]
    exact ⟨_, rfl, hpids (by rw [htype]; rfl) (by simp only [childEntries, htype])⟩
  · rw [htype]
    exact ⟨_, rfl, readdirThreads_eq w c dir startpos htype p ▸ hkept (by rw [htype]; rfl)⟩
  · rw [htype]
    exact ⟨_, rfl, readdirFds_eq w c dir startpos htype p ▸ hkept (by rw [htype]; rfl)⟩

/-- Any other child, except a root, is one entry. -/
theorem childEntries_static (hlisting : s.psnNodeType.isListing = false)
    (hnoroot : s.psnNodeType ≠ .root) : childEntries w c dir s = [staticEntry w dir s] := by
  unfold childEntries
  cases htype : s.psnNodeType with
  | root => exact absurd htype hnoroot
  | proc | procnamedir | thread | fd => simp [htype, PfsType.isListing] at hlisting
  | _ => rfl

/-- It is copied out, and the loop goes on if it fits. -/
theorem readdirLoop_static (startpos : ℕ) (hlisting : s.psnNodeType.isListing = false)
    (hnoroot : s.psnNodeType ≠ .root) (hroom : p.room ≠ 0)
    (hhidden : procfsNodeVersionHidden w.linuxVersion s.psnName = false)
    (hvisible : dirVisible w c dir = true) (rest : List Pfssnode) :
    readdirLoop w c dir startpos (s :: rest) p =
      match direntFormat.put startpos (staticEntry w dir s) p with
      | (p', true) => readdirLoop w c dir startpos rest p'
      | (p', false) => some (p', none, false) := by
  simp only [readdirLoop, if_neg hroom, hhidden, hvisible, if_true, Bool.false_eq_true, if_false]
  cases htype : s.psnNodeType with
  | root => exact absurd htype hnoroot
  | proc | procnamedir | thread | fd => simp [htype, PfsType.isListing] at hlisting
  | _ => rfl

theorem PfsType.isListing_of_keepsSnode {type : PfsType} (h : type.keepsSnode = true) :
    type.isListing = true := by
  cases type <;> first | rfl | cases h

/-- A child that adds nothing and is passed over does not change how the loop ends. -/
theorem WalkEnd.cons {rest : List Pfssnode} {e : Option Errno × Bool} (h : WalkEnd w c dir rest e)
    (hs : dirVisible w c dir = true → procfsNodeVersionHidden w.linuxVersion s.psnName = false →
      s.psnNodeType.keepsSnode = false) : WalkEnd w c dir (s :: rest) e := by
  rcases h with ⟨heq, hrest⟩ | ⟨hvisible, s', hs', hend⟩
  · refine Or.inl ⟨heq, fun hvisible s' hs' hshown => ?_⟩
    rcases List.mem_cons.mp hs' with rfl | hs'
    · exact hs hvisible hshown
    · exact hrest hvisible s' hs' hshown
  · exact Or.inr ⟨hvisible, s', List.mem_cons_of_mem s hs', hend⟩

/-- Neither does it change the rest, where the walk goes on behind it. -/
theorem LoopEnds.cons {rest : List Pfssnode} {p p' : Page Direntry} {r : LoopEnd}
    (h : LoopEnds w c dir startpos rest p' r)
    (hwalk : direntFormat.putAll startpos (childrenEntries w c dir (s :: rest)) p =
      direntFormat.putAll startpos (childrenEntries w c dir rest) p')
    (hs : dirVisible w c dir = true → procfsNodeVersionHidden w.linuxVersion s.psnName = false →
      s.psnNodeType.keepsSnode = false) : LoopEnds w c dir startpos (s :: rest) p r := by
  refine ⟨?_, ?_, ?_⟩
  · rw [hwalk, h.page_eq]
  · rw [hwalk]
    exact h.done_of_eof
  · rw [hwalk]
    intro hdone hleft
    exact (h.end_of_done hdone hleft).cons hs

/-- A child that is one entry is walked over if it fits, and ends the loop if not. -/
theorem readdirLoop_static_ends {rest : List Pfssnode} (hlisting : s.psnNodeType.isListing = false)
    (hroot : s.psnNodeType ≠ .root) (hroom : p.room ≠ 0)
    (hhidden : procfsNodeVersionHidden w.linuxVersion s.psnName = false)
    (hvisible : dirVisible w c dir = true)
    (hrest : ∀ p', direntFormat.put startpos (staticEntry w dir s) p = (p', true) →
      ∃ r, readdirLoop w c dir startpos rest p' = some r ∧
        LoopEnds w c dir startpos rest p' r) :
    ∃ r, readdirLoop w c dir startpos (s :: rest) p = some r ∧
      LoopEnds w c dir startpos (s :: rest) p r := by
  have hentries : childrenEntries w c dir (s :: rest) =
      staticEntry w dir s :: childrenEntries w c dir rest := by
    rw [childrenEntries_cons hvisible hhidden, childEntries_static hlisting hroot,
      List.singleton_append]
  rw [readdirLoop_static startpos hlisting hroot hroom hhidden hvisible rest]
  cases hput : direntFormat.put startpos (staticEntry w dir s) p with
  | mk p' ok =>
    cases ok with
    | true =>
      rcases hrest p' hput with ⟨r, hr, hends⟩
      refine ⟨r, hr, hends.cons (by rw [hentries, RecordFormat.putAll, hput]) fun _ _ => ?_⟩
      by_contra hkeeps
      rw [PfsType.isListing_of_keepsSnode (Bool.eq_true_of_not_eq_false hkeeps)] at hlisting
      cases hlisting
    | false =>
      -- the entry did not fit, so the walk was not done either
      have hwalk : direntFormat.putAll startpos (childrenEntries w c dir (s :: rest)) p =
          (p', false) := by
        rw [hentries, RecordFormat.putAll, hput]
      refine ⟨_, rfl, by rw [hwalk], fun heof => ?_, fun hdone => ?_⟩
      · cases heof
      · rw [hwalk] at hdone
        cases hdone

/-- The main loop copies out what a walk over the entries of the children would:
it stops early only when the buffer is full, and a child that stands for many
entries, which ends it, is the last. -/
theorem readdirLoop_ends {w : World} {c : Caller} {dir : Pfsnode} {startpos : ℕ}
    {children : List Pfssnode} {p : Page Direntry}
    (hstatic : ∀ s ∈ children.dropLast, s.psnNodeType.isListing = false)
    (hnoroot : ∀ s ∈ children, s.psnNodeType ≠ .root) (hgoing : Going startpos p) :
    ∃ r, readdirLoop w c dir startpos children p = some r ∧
      LoopEnds w c dir startpos children p r := by
  induction children generalizing p with
  | nil =>
    refine ⟨_, rfl, by rw [childrenEntries_nil]; rfl, fun _ => by rw [childrenEntries_nil]; rfl,
      fun _ _ => Or.inl ⟨rfl, fun _ s hs => by cases hs⟩⟩
  | cons s rest ih =>
    have hstatic' : ∀ s' ∈ rest.dropLast, s'.psnNodeType.isListing = false := by
      intro s' hs'
      have hrest : rest ≠ [] := by
        rintro rfl
        cases hs'
      rw [List.dropLast_cons_of_ne_nil hrest] at hstatic
      exact hstatic s' (List.mem_cons_of_mem s hs')
    have hnoroot' : ∀ s' ∈ rest, s'.psnNodeType ≠ .root := fun s' hs' =>
      hnoroot s' (List.mem_cons_of_mem s hs')
    by_cases hroom : p.room = 0
    · -- nothing is left unused
      refine ⟨_, by rw [readdirLoop, if_pos hroom], (hgoing.putAll_of_full hroom _).symm,
        fun heof => ?_, fun _ hleft => absurd hroom (Nat.ne_of_gt hleft)⟩
      cases heof
    · cases hhidden : procfsNodeVersionHidden w.linuxVersion s.psnName with
      | true =>
        rcases ih hstatic' hnoroot' hgoing with ⟨r, hr, hends⟩
        refine ⟨r, by rw [readdirLoop, if_neg hroom, if_pos hhidden, hr],
          hends.cons (by rw [childrenEntries_cons_hidden hhidden]) fun _ hshown => ?_⟩
        rw [hhidden] at hshown
        cases hshown
      | false =>
        cases hvisible : dirVisible w c dir with
        | false =>
          have hnone : ∀ cs, childrenEntries w c dir cs = [] := by
            intro cs
            simp [childrenEntries, hvisible]
          rcases ih hstatic' hnoroot' hgoing with ⟨r, hr, hends⟩
          refine ⟨r, ?_, hends.cons (by rw [hnone, hnone]) fun h => ?_⟩
          · rw [readdirLoop, if_neg hroom, hhidden, hvisible]
            exact hr
          · rw [hvisible] at h
            cases h
        | true =>
          cases hlisting : s.psnNodeType.isListing with
          | true =>
            -- it is the last child
            have hrest : rest = [] := by
              by_contra hne
              rw [List.dropLast_cons_of_ne_nil hne] at hstatic
              have h := hstatic s List.mem_cons_self
              rw [hlisting] at h
              cases h
            rw [hrest]
            exact readdirLoop_listing hlisting hroom hhidden hvisible
          | false =>
            exact readdirLoop_static_ends hlisting (hnoroot s List.mem_cons_self) hroom hhidden
              hvisible fun p' hput => ih hstatic' hnoroot' (hgoing.put hput)

/-- So does the loop over the sysctl children, given enough rounds. -/
theorem sysctlReaddirLoop_ends {startpos n index : ℕ}
    (hoid : oidRegistered w.oids dir.nodeId.nodeidObjectid = true)
    (hindex : index ≤ (sysctlListing w.oids dir.nodeId.nodeidObjectid).length)
    (hn : (sysctlListing w.oids dir.nodeId.nodeidObjectid).length < index + n)
    (hgoing : Going startpos p) :
    ∃ page more, sysctlReaddirLoop w dir startpos n index p = some (page, more) ∧
      page = (direntFormat.putAll startpos
        (((sysctlListing w.oids dir.nodeId.nodeidObjectid).drop index).map (sysctlEntry dir)) p).1 ∧
      (more = false → (direntFormat.putAll startpos
        (((sysctlListing w.oids dir.nodeId.nodeidObjectid).drop index).map (sysctlEntry dir))
          p).2 = true) ∧
      ((direntFormat.putAll startpos
        (((sysctlListing w.oids dir.nodeId.nodeidObjectid).drop index).map (sysctlEntry dir))
          p).2 = true → 0 < page.room → more = false) := by
  -- a round looks at the child of the index, so there is one more round than children
  induction n generalizing index p with
  | zero => omega
  | succ n ih =>
    rw [sysctlReaddirLoop]
    by_cases hroom : p.room = 0
    · -- the buffer is full, and the walk has stopped there too
      rw [if_pos hroom]
      exact ⟨_, _, rfl, (hgoing.putAll_of_full hroom _).symm, fun h => (by cases h),
        fun _ hleft => absurd hroom (Nat.ne_of_gt hleft)⟩
    · rw [if_neg hroom, if_neg (not_not_intro hoid), procfsSysctlChildAt_eq]
      by_cases hlt : index < (sysctlListing w.oids dir.nodeId.nodeidObjectid).length
      · -- there is a child: its record fits, or the loop ends here
        rw [List.getElem?_eq_getElem hlt, List.drop_eq_getElem_cons hlt, List.map_cons,
          RecordFormat.putAll]
        simp only
        cases hput : direntFormat.put startpos (sysctlEntry dir _) p with
        | mk p' ok =>
          cases ok with
          | true => exact ih hlt (by omega) (hgoing.put hput)
          | false => exact ⟨_, _, rfl, rfl, fun h => (by cases h), fun h => (by cases h)⟩
      · -- there is none: the walk is done
        rw [List.getElem?_eq_none (by omega), List.drop_of_length_le (by omega)]
        exact ⟨_, _, rfl, rfl, fun _ => rfl, fun _ _ => rfl⟩

theorem length_sysctlListing_lt (w : World) (dir : Pfsnode) :
    (sysctlListing w.oids dir.nodeId.nodeidObjectid).length < sysctlRounds w dir := by
  unfold sysctlListing sysctlRounds
  split
  · rw [List.length_map]
    omega
  · cases procfsSysctlChildren w.oids dir.nodeId.nodeidObjectid with
    | none => simp
    | some list =>
      have hvisible := List.length_filterMap_le visibleChild list
      simp only [List.length_append, Option.getD_some]
      split <;> simp <;> omega

/-- What a readdir call returns, against a walk over the listing. -/
structure CallEnds (w : World) (c : Caller) (dir : Pfsnode) (startpos room : ℕ)
    (r : ReaddirReply) : Prop where
  offset_eq : r.uioOffset = (direntFormat.page (dirListing w c dir) startpos room).pos
  records_eq : r.records = (direntFormat.page (dirListing w c dir) startpos room).out
  done_of_eof : r.eofflag = true →
    (direntFormat.putAll startpos (dirListing w c dir) ⟨0, room, []⟩).2 = true
  end_of_done : (direntFormat.putAll startpos (dirListing w c dir) ⟨0, room, []⟩).2 = true →
    0 < (direntFormat.page (dirListing w c dir) startpos room).room →
    WalkEnd w c dir (w.tree.children dir.nodeStructureNode) (r.error, r.eofflag)

theorem procfsSysctlReaddir_ends (hsysctl : dir.nodeStructureNode.psnNodeType = .sysctl)
    (hoid : dir.OidRegistered w.oids) (hnil : w.tree.children dir.nodeStructureNode = [])
    (startpos : ℕ) {room : ℕ} (hroom : 0 < room) :
    ∃ r, procfsSysctlReaddir w dir startpos room = some r ∧ CallEnds w c dir startpos room r := by
  have hgoing : Going startpos ⟨0, room, []⟩ := Or.inr hroom
  -- the dots come first, and then the children
  have hwalk := direntFormat.putAll_append startpos (sysctlDots dir)
    ((sysctlListing w.oids dir.nodeId.nodeidObjectid).map (sysctlEntry dir)) ⟨0, room, []⟩
  have hlisting : dirListing w c dir = sysctlDots dir ++
      (sysctlListing w.oids dir.nodeId.nodeidObjectid).map (sysctlEntry dir) := by
    rw [dirListing, if_pos hsysctl]
  rw [← hlisting] at hwalk
  unfold procfsSysctlReaddir
  cases hdots : direntFormat.putAll startpos (sysctlDots dir) ⟨0, room, []⟩ with
  | mk p ok =>
    simp only [hdots] at hwalk
    cases ok with
    -- not even the dots fit
    | false =>
      simp only [Bool.false_eq_true, if_false] at hwalk
      refine ⟨_, rfl, by rw [RecordFormat.page, hwalk], by rw [RecordFormat.page, hwalk],
        fun h => (by cases h), fun hdone => ?_⟩
      rw [hwalk] at hdone
      cases hdone
    -- the loop begins behind the dots
    | true =>
      simp only [if_true] at hwalk
      have hrounds : (sysctlListing w.oids dir.nodeId.nodeidObjectid).length <
          0 + sysctlRounds w dir := by
        rw [Nat.zero_add]
        exact length_sysctlListing_lt w dir
      obtain ⟨page, more, hr, hpage, hdone, hmore⟩ :=
        sysctlReaddirLoop_ends (hoid hsysctl) (Nat.zero_le _) hrounds (hgoing.putAll hdots)
      rw [List.drop_zero, ← hwalk] at hpage hdone hmore
      simp only [hr, Option.map_some]
      refine ⟨_, rfl, by rw [RecordFormat.page, ← hpage], by rw [RecordFormat.page, ← hpage],
        fun heof => hdone (by simpa using heof), fun hall hleft => ?_⟩
      rw [RecordFormat.page, ← hpage] at hleft
      rw [hmore hall hleft, hnil]
      exact Or.inl ⟨rfl, fun _ s hs => by cases hs⟩

/-- A call on a directory returns, and ends as a walk over the listing does. -/
theorem procfsVnopReaddir_ends {w : World} {c : Caller} {dir : Pfsnode} {build : ℕ}
    {next : UInt16} (htree : w.tree = procfsStructureInit build next)
    (hdir : dir.nodeStructureNode ∈ w.tree.nodes) (hisdir : dir.IsDir w.oids)
    (startpos : ℕ) {room : ℕ} (hroom : 0 < room) :
    ∃ r, procfsVnopReaddir w c dir startpos room = some r ∧ CallEnds w c dir startpos room r := by
  have hvalid : ¬ dir.vnodeVtype ≠ .VDIR := not_not_intro hisdir.vdir
  have hok := procfsStructureInit_childrenOk (htree ▸ hdir)
  rw [← htree] at hok
  obtain ⟨hstatic, hnames, hnil⟩ := childrenOk_iff.mp hok
  rw [procfsVnopReaddir, if_neg hvalid]
  -- the two kinds of directories have their own loops
  by_cases hsysctl : dir.nodeStructureNode.psnNodeType = .sysctl
  · rw [if_pos hsysctl]
    exact procfsSysctlReaddir_ends hsysctl hisdir.registered (hnil hsysctl) startpos hroom
  · rw [if_neg hsysctl]
    have hlisting : dirListing w c dir =
        childrenEntries w c dir (w.tree.children dir.nodeStructureNode) := by
      rw [dirListing, if_neg hsysctl]
    obtain ⟨r, hr, hends⟩ := @readdirLoop_ends w c dir startpos _ ⟨0, room, []⟩ hstatic
      (fun s hs => (hnames s hs).1) (Or.inr hroom)
    have hpage : r.1 = direntFormat.page (dirListing w c dir) startpos room := by
      rw [hends.page_eq, ← hlisting]
      rfl
    rw [hr, Option.map_some]
    refine ⟨_, rfl, by rw [hpage], by rw [hpage], ?_, ?_⟩
    · rw [hlisting]
      exact hends.done_of_eof
    · rw [← hpage, hlisting]
      exact hends.end_of_done

/-- So what it returns is a page of the listing. -/
theorem procfsVnopReaddir_page {build : ℕ} {next : UInt16}
    (htree : w.tree = procfsStructureInit build next) (hdir : dir.nodeStructureNode ∈ w.tree.nodes)
    (hisdir : dir.IsDir w.oids) (startpos : ℕ) {room : ℕ} (hroom : 0 < room) :
    ∃ r, procfsVnopReaddir w c dir startpos room = some r ∧
      r.uioOffset = (direntFormat.page (dirListing w c dir) startpos room).pos ∧
      r.records = (direntFormat.page (dirListing w c dir) startpos room).out := by
  obtain ⟨r, hr, hends⟩ := @procfsVnopReaddir_ends w c dir build next htree hdir hisdir
    startpos room
    hroom
  exact ⟨r, hr, hends.offset_eq, hends.records_eq⟩

end ProcFS
