import Mathlib.Data.Int.ModEq
import Mathlib.Data.List.Pairwise
import ProcFS.Cycles

/-!
# ProcFS.MountNames — the device names of the instances

`procfs_mount` names an instance after the counter of mounted instances, so that
`mount(1)` can tell the instances apart. The counter goes down again when an
instance is unmounted, and the instances that stay keep the names they were given:
the next instance can be given a number that is in use.

The roll of a history lists the mounted instances with the number that each one was
given. It is read off the events alone; the names in the kernel are those of the roll.

* `instanceName_injective`: different counters make different names.
* `lists_roll`: the mounts after a history are those of its roll.
* `history_namesDiffer_iff`: in which histories the names of mounted instances differ.
-/

namespace ProcFS

/-! ## Names and numbers -/

/-- The device name of an instance, mounted with the counter at `count`. -/
def instanceName (count : Int32) : CString :=
  if count = 1 then mountedDeviceName else mountedDeviceName ++ fmtInt count.toInt

theorem populateStatfsInfo_name (k : Kext) (pmp : Pfsmount) :
    (populateStatfsInfo k pmp).fMntfromname = instanceName k.mountedInstanceCount := rfl

/-- The digits of a number determine it modulo the size of an `int`. -/
theorem ofNat_eq_of_fmtNat_eq {m n : ℕ} (h : fmtNat m = fmtNat n) :
    Int32.ofNat m = Int32.ofNat n := by
  have hm := @procfsAtoi_fmtNat m [] rfl
  have hn := @procfsAtoi_fmtNat n [] rfl
  rw [h, hn] at hm
  exact (congrArg Prod.fst hm).symm

theorem fmtInt_ne_nil (n : ℤ) : fmtInt n ≠ [] := by
  unfold fmtInt
  split
  · exact List.cons_ne_nil _ _
  · exact fmtNat_ne_nil _

/-- A number with a minus sign and one without print differently. -/
theorem fmtInt_neg_ne {m n : ℤ} (hm : m < 0) (hn : 0 ≤ n) : fmtInt m ≠ fmtInt n := by
  intro h
  have hdigit := fmtNat_head_isDigit n.natAbs []
  have hminus : (fmtInt m).head? = some 45 := by
    rw [fmtInt, if_pos hm]
    rfl
  rw [List.append_nil, ← fmtInt_of_nonneg hn, ← h, hminus] at hdigit
  exact absurd hdigit (by decide)

/-- Two numbers of one sign that print alike have the same absolute value. -/
theorem natAbs_eq_of_fmtNat_eq {i j : Int32} (h : fmtNat i.toInt.natAbs = fmtNat j.toInt.natAbs) :
    i.toInt.natAbs = j.toInt.natAbs := by
  have hi := Int32.le_toInt i
  have hi' := Int32.toInt_lt i
  have hj := Int32.le_toInt j
  have hj' := Int32.toInt_lt j
  have hread := congrArg Int32.toInt (ofNat_eq_of_fmtNat_eq h)
  rw [Int32.toInt_ofNat', Int32.toInt_ofNat', Int.bmod_def, Int.bmod_def] at hread
  simp only [Int32.size] at hread
  split at hread <;> split at hread <;> omega

theorem fmtInt_toInt_injective : Function.Injective fun i : Int32 => fmtInt i.toInt := by
  intro i j h
  apply Int32.toInt_inj.mp
  rcases lt_or_ge i.toInt 0 with hineg | hipos <;> rcases lt_or_ge j.toInt 0 with hjneg | hjpos
  · simp only [fmtInt, if_pos hineg, if_pos hjneg] at h
    have habs := natAbs_eq_of_fmtNat_eq (List.append_cancel_left h)
    omega
  · exact absurd h (fmtInt_neg_ne hineg hjpos)
  · exact absurd h.symm (fmtInt_neg_ne hjneg hipos)
  · simp only [fmtInt_of_nonneg hipos, fmtInt_of_nonneg hjpos] at h
    have habs := natAbs_eq_of_fmtNat_eq h
    omega

/-- Different counters make different names: only the first instance has no number. -/
theorem instanceName_injective : Function.Injective instanceName := by
  intro i j h
  unfold instanceName at h
  split at h <;> split at h
  · simp_all
  · exact absurd (List.self_eq_append_right.mp h) (fmtInt_ne_nil _)
  · exact absurd (List.append_right_eq_self.mp h) (fmtInt_ne_nil _)
  · exact fmtInt_toInt_injective (List.append_cancel_left h)

/-- The counter is an `int`. -/
theorem ofNat_eq_iff_modEq (m n : ℕ) : Int32.ofNat m = Int32.ofNat n ↔ m ≡ n [MOD 2 ^ 32] := by
  rw [← Int32.toInt_inj, Int32.toInt_ofNat', Int32.toInt_ofNat', Nat.ModEq, Int.bmod_def,
    Int.bmod_def]
  simp only [Int32.size]
  split <;> split <;> omega

/-! ## The roll of a history -/

/-- The mounted instances, the latest first, each with the number of instances that
were mounted once it was. -/
abbrev Roll := List (MountPoint × ℕ)

/-- A mount point that has an instance is not given another one, and a mount that
finds no memory fails. -/
def Roll.step (r : Roll) : Event → Roll
  | .mount mp _ (some _) _ => if mp ∈ r.map Prod.fst then r else (mp, r.length + 1) :: r
  | .unmount mp => r.filter fun i => i.1 ≠ mp
  | _ => r

def roll (es : List Event) : Roll := es.foldl Roll.step []

theorem roll_concat (es : List Event) (e : Event) : roll (es ++ [e]) = (roll es).step e := by
  simp [roll]

/-- The number of a new instance is not that of a mounted one. -/
def Roll.NumberFree (r : Roll) : Event → Prop
  | .mount mp _ (some _) _ => mp ∉ r.map Prod.fst → ∀ i ∈ r, ¬ i.2 ≡ r.length + 1 [MOD 2 ^ 32]
  | _ => True

/-- What the kernel extension holds of a roll. -/
structure Kext.Lists (k : Kext) (r : Roll) : Prop where
  nodup : (r.map Prod.fst).Nodup
  mounted_iff : ∀ mp, k.Mounted mp ↔ mp ∈ r.map Prod.fst
  count_eq : k.mountedInstanceCount = Int32.ofNat r.length
  name_eq : ∀ i ∈ r, (k.vfsMount i.1).statfs.fMntfromname = instanceName (Int32.ofNat i.2)

theorem Kext.lists_init : Kext.init.Lists [] where
  nodup := List.nodup_nil
  mounted_iff mp := by simp [Kext.Mounted, Kext.init]
  count_eq := rfl
  name_eq i h := by cases h

/-- Only the mounts and the counter matter. -/
theorem Kext.Lists.congr {k k' : Kext} {r : Roll} (h : k.Lists r)
    (hmount : k'.vfsMount = k.vfsMount)
    (hcount : k'.mountedInstanceCount = k.mountedInstanceCount) : k'.Lists r where
  nodup := h.nodup
  mounted_iff mp := by
    rw [← h.mounted_iff, Kext.Mounted, Kext.Mounted, hmount]
  count_eq := hcount.trans h.count_eq
  name_eq i hi := by
    rw [hmount]
    exact h.name_eq i hi

@[simp] theorem Kext.structureInit_mountedInstanceCount (k : Kext) :
    k.structureInit.mountedInstanceCount = k.mountedInstanceCount := by
  unfold Kext.structureInit
  split <;> rfl

theorem Kext.Lists.addInstance {k : Kext} {r : Roll} (h : k.Lists r) {mp : MountPoint}
    (hnew : mp ∉ r.map Prod.fst) (m : Pfsmount) (now : Timespec) :
    (k.addInstance mp m now).Lists ((mp, r.length + 1) :: r) where
  nodup := by
    rw [List.map_cons, List.nodup_cons]
    exact ⟨hnew, h.nodup⟩
  mounted_iff mp' := by
    rw [Kext.addInstance_mounted, h.mounted_iff, List.map_cons, List.mem_cons]
  count_eq := by
    show k.mountedInstanceCount + 1 = Int32.ofNat (r.length + 1)
    rw [h.count_eq, Int32.ofNat_add]
    rfl
  name_eq i hi := by
    simp only [Kext.addInstance]
    -- the new instance has the name of the next number, and the others keep theirs
    rcases List.mem_cons.mp hi with rfl | hold
    · rw [Function.update_self, populateStatfsInfo_name, h.count_eq, Int32.ofNat_add]
      rfl
    · have hne : i.1 ≠ mp := by
        rintro rfl
        exact hnew (List.mem_map_of_mem hold)
      rw [Function.update_of_ne hne]
      exact h.name_eq i hold

/-- Exactly one instance of a roll is on a mount point of it. -/
theorem Roll.length_filter {r : Roll} (h : (r.map Prod.fst).Nodup) {mp : MountPoint}
    (hmp : mp ∈ r.map Prod.fst) : (r.filter fun i => i.1 ≠ mp).length + 1 = r.length := by
  induction r with
  | nil => cases hmp
  | cons i r ih =>
    rw [List.map_cons, List.nodup_cons] at h
    by_cases hi : i.1 = mp
    · -- no other instance is on this mount point
      have hrest : r.filter (fun j => j.1 ≠ mp) = r := by
        rw [List.filter_eq_self]
        intro j hj
        have hne : j.1 ≠ mp := by
          rintro rfl
          exact h.1 (hi ▸ List.mem_map_of_mem hj)
        simpa using hne
      rw [List.filter_cons_of_neg (by simpa using hi), hrest, List.length_cons]
    · -- it is further on in the roll
      have hmem : mp ∈ r.map Prod.fst := by
        rcases List.mem_cons.mp hmp with heq | hmem
        · exact absurd heq.symm hi
        · exact hmem
      rw [List.filter_cons_of_pos (by simpa using hi), List.length_cons, ih h.2 hmem,
        List.length_cons]

theorem Kext.Lists.unmount {k : Kext} {r : Roll} (h : k.Lists r) {mp : MountPoint}
    (hmp : k.Mounted mp) : (procfsUnmount k mp).Lists (r.filter fun i => i.1 ≠ mp) := by
  obtain ⟨pmp, hpmp⟩ := Option.ne_none_iff_exists'.mp hmp
  have hlength := Roll.length_filter h.nodup ((h.mounted_iff mp).mp hmp)
  simp only [procfsUnmount, hpmp, Kext.structureFree]
  refine ⟨?_, ?_, ?_, ?_⟩
  · exact h.nodup.sublist (List.filter_sublist.map Prod.fst)
  · -- the others are mounted as before
    intro mp'
    simp only [Kext.Mounted]
    by_cases heq : mp' = mp
    · subst heq
      simp
    · have hold := h.mounted_iff mp'
      simp only [Kext.Mounted, List.mem_map] at hold
      simp only [Function.update_of_ne heq, hold, List.mem_map, List.mem_filter]
      constructor
      · rintro ⟨i, hi, rfl⟩
        exact ⟨i, ⟨hi, by simpa using heq⟩, rfl⟩
      · rintro ⟨i, ⟨hi, -⟩, rfl⟩
        exact ⟨i, hi, rfl⟩
  · -- the counter is one less
    show k.mountedInstanceCount - 1 = _
    rw [h.count_eq, ← hlength, Int32.ofNat_add]
    exact Int32.add_sub_cancel _ _
  · intro i hi
    obtain ⟨hmem, hne⟩ := List.mem_filter.mp hi
    have hpoint : i.1 ≠ mp := by simpa using hne
    simp only [Function.update_of_ne hpoint]
    exact h.name_eq i hmem

/-- One call changes the mounts as it changes the roll. -/
theorem Kext.Lists.step {k k' : Kext} {r : Roll} {e : Event} (h : k.Lists r)
    (hstep : k.step e = some k') : k'.Lists (r.step e) := by
  -- calls that use an instance change neither the mounts nor the counter
  by_cases huse : e.isUse = true
  · have hroll : r.step e = r := by
      cases e <;> first | rfl | cases huse
    rw [hroll, Kext.step_use huse hstep]
    exact h.congr rfl rfl
  cases e with
  | mount mp data mem now =>
    simp only [Kext.step, procfsMount, Option.some.injEq] at hstep
    subst hstep
    cases mem with
    -- without memory the mount fails
    | none =>
      have hsame : r.step (.mount mp data none now) = r := rfl
      rw [hsame]
      split <;> first | exact h | contradiction
    | some m =>
      simp only [Roll.step]
      split
      · -- it is mounted there already
        rename_i pmp hpmp
        rw [if_pos ((h.mounted_iff mp).mp (by simp [Kext.Mounted, hpmp]))]
        exact h
      · contradiction
      · -- a new instance
        rename_i hpmp heq
        cases heq
        have hnew : mp ∉ r.map Prod.fst := by
          rw [← h.mounted_iff]
          simp [Kext.Mounted, hpmp]
        rw [if_neg hnew]
        exact (h.addInstance hnew m now).congr (by simp) (by simp)
  | unmount mp =>
    simp only [Kext.step] at hstep
    split at hstep
    · cases hstep
    · rename_i pmp hpmp
      cases hstep
      exact h.unmount (by simp [Kext.Mounted, hpmp])
  | root => exact absurd rfl huse
  | lookup => exact absurd rfl huse
  | reclaim => exact absurd rfl huse

/-- So the mounts after any history are those of its roll. -/
theorem lists_roll {es : List Event} {k : Kext} (h : run Kext.step Kext.init es = some k) :
    k.Lists (roll es) := by
  induction es using List.reverseRecOn generalizing k with
  | nil =>
    cases h
    exact Kext.lists_init
  | append_singleton es e ih =>
    obtain ⟨k₁, hk₁, hstep⟩ := run_concat.mp h
    rw [roll_concat]
    exact (ih hk₁).step hstep

/-! ## Names of instances mounted at the same time -/

/-- The mounted instances have different device names. -/
def Kext.NamesDiffer (k : Kext) : Prop :=
  ∀ mp mp', k.Mounted mp → k.Mounted mp' → mp ≠ mp' →
    (k.vfsMount mp).statfs.fMntfromname ≠ (k.vfsMount mp').statfs.fMntfromname

/-- The numbers on a roll are different. -/
def Roll.NumbersDiffer (r : Roll) : Prop := r.Pairwise fun i j => ¬ i.2 ≡ j.2 [MOD 2 ^ 32]

theorem Kext.Lists.namesDiffer_iff {k : Kext} {r : Roll} (h : k.Lists r) :
    k.NamesDiffer ↔ r.NumbersDiffer := by
  -- names are equal if the numbers are, modulo the size of the counter
  have hname : ∀ i ∈ r, ∀ j ∈ r, ((k.vfsMount i.1).statfs.fMntfromname =
      (k.vfsMount j.1).statfs.fMntfromname ↔ i.2 ≡ j.2 [MOD 2 ^ 32]) := by
    intro i hi j hj
    rw [h.name_eq i hi, h.name_eq j hj, instanceName_injective.eq_iff, ofNat_eq_iff_modEq]
  constructor
  · intro hdiffer
    have hpoints : r.Pairwise fun i j => i.1 ≠ j.1 := List.pairwise_map.mp h.nodup
    refine hpoints.imp_of_mem fun {i j} hi hj hne => ?_
    rw [← hname i hi j hj]
    exact hdiffer _ _ ((h.mounted_iff _).mpr (List.mem_map_of_mem hi))
      ((h.mounted_iff _).mpr (List.mem_map_of_mem hj)) hne
  · intro hnumbers mp mp' hmp hmp' hne
    obtain ⟨i, hi, rfl⟩ := List.mem_map.mp ((h.mounted_iff mp).mp hmp)
    obtain ⟨j, hj, rfl⟩ := List.mem_map.mp ((h.mounted_iff mp').mp hmp')
    rw [ne_eq, hname i hi j hj]
    have hij : i ≠ j := fun heq => hne (congrArg Prod.fst heq)
    have hsymm : Std.Symm fun i j : MountPoint × ℕ => ¬ i.2 ≡ j.2 [MOD 2 ^ 32] :=
      ⟨fun _ _ hn hmod => hn hmod.symm⟩
    exact hnumbers.forall hi hj hij

/-- A call that gives no number in use keeps the numbers different. -/
theorem Roll.NumbersDiffer.step {r : Roll} {e : Event} (h : r.NumbersDiffer)
    (hfree : r.NumberFree e) : (r.step e).NumbersDiffer := by
  unfold Roll.step
  split
  · split
    · exact h
    · rename_i hnew
      refine List.pairwise_cons.mpr ⟨?_, h⟩
      intro i hi hmod
      exact hfree hnew i hi hmod.symm
  · exact List.Pairwise.filter _ h
  · exact h

/-- And one that gives a number in use does not. -/
theorem Roll.numberFree_of_step {r : Roll} {e : Event} (h : (r.step e).NumbersDiffer) :
    r.NumberFree e := by
  unfold Roll.NumberFree
  split
  · intro hnew i hi hmod
    simp only [Roll.step, if_neg hnew] at h
    exact (List.pairwise_cons.mp h).1 i hi hmod.symm
  · trivial

/-- In all the states of a history the mounted instances have different names exactly
when no instance was given, on its mount, a number that a mounted one had. -/
theorem history_namesDiffer_iff {es : List Event} {k : Kext}
    (h : run Kext.step Kext.init es = some k) :
    (∀ es' k', es' <+: es → run Kext.step Kext.init es' = some k' → k'.NamesDiffer) ↔
    (∀ es' e, es' ++ [e] <+: es → (roll es').NumberFree e) := by
  constructor
  · intro hdiffer es' e hpre
    obtain ⟨k', hk'⟩ := run_of_isPrefix h hpre
    have hnumbers := (lists_roll hk').namesDiffer_iff.mp (hdiffer _ k' hpre hk')
    rw [roll_concat] at hnumbers
    exact Roll.numberFree_of_step hnumbers
  · intro hfree es' k' hpre hk'
    rw [(lists_roll hk').namesDiffer_iff]
    clear hk' k'
    -- along the prefix: each call keeps the numbers of the roll different
    induction es' using List.reverseRecOn with
    | nil => exact List.Pairwise.nil
    | append_singleton es' e ih =>
      rw [roll_concat]
      exact (ih ((List.prefix_append es' [e]).trans hpre)).step (hfree es' e hpre)

/-- Mounting an instance on a mount point, in cleared memory. -/
def plainMount (mp : MountPoint) : Event := .mount mp .null (some ⟨0, 0, 0, ⟨0, 0⟩⟩) ⟨0, 0⟩

/-- Two instances, the first of them unmounted and a third one mounted: the two that
are left are both `proc2`. -/
theorem history_two_proc2 :
    ∃ k, run Kext.step Kext.init [plainMount 0, plainMount 1, .unmount 0, plainMount 2] = some k ∧
      k.Mounted 1 ∧ k.Mounted 2 ∧
      (k.vfsMount 1).statfs.fMntfromname = cstr "proc2" ∧
      (k.vfsMount 2).statfs.fMntfromname = cstr "proc2" := by
  refine ⟨_, rfl, ?_⟩
  have hlists := @lists_roll [plainMount 0, plainMount 1, .unmount 0, plainMount 2] _ rfl
  have hroll : roll [plainMount 0, plainMount 1, .unmount 0, plainMount 2] = [(2, 2), (1, 2)] := rfl
  rw [hroll] at hlists
  exact ⟨(hlists.mounted_iff 1).mpr (by decide), (hlists.mounted_iff 2).mpr (by decide),
    hlists.name_eq (1, 2) (by decide), hlists.name_eq (2, 2) (by decide)⟩

/-- When the second of two instances is unmounted, the third gets its number. -/
theorem history_last_unmounted :
    (∃ k, run Kext.step Kext.init
      [plainMount 0, plainMount 1, .unmount 1, plainMount 2] = some k) ∧
    ∀ es' k', es' <+: [plainMount 0, plainMount 1, .unmount 1, plainMount 2] →
      run Kext.step Kext.init es' = some k' → k'.NamesDiffer := by
  refine ⟨⟨_, rfl⟩, (history_namesDiffer_iff rfl).mpr ?_⟩
  intro es' e hpre
  obtain ⟨n, he, rfl⟩ := concat_isPrefix hpre
  -- the four calls one by one
  rcases n with _ | _ | _ | _ | n
  · cases he
    simp [roll, plainMount, Roll.NumberFree]
  · cases he
    simp [roll, plainMount, Roll.NumberFree, Roll.step, Nat.ModEq]
  · cases he
    trivial
  · cases he
    simp [roll, plainMount, Roll.NumberFree, Roll.step, Nat.ModEq]
  · cases he

end ProcFS
