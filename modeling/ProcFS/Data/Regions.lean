import Mathlib.Algebra.Group.Nat.Defs
import ProcFS.Transfer

/-!
# ProcFS.Data.Regions — walking over the regions of an address space

The `map` nodes get the regions of a process from the daemon, 32 of them in a reply. A
request names the address to resume at, and the walk goes on where the last region
ended until a reply is empty. Ends are computed modulo 2^64, so the end of a region at
the very top of the address space is 0, and both programs stop there.

* `VmRegion.next_le_iff`: where both loops stop.
* `mapsLoop_ahead`: one reply has the next regions.
* `mapWalk_visits_regions`: the walk visits each region once and in order.
-/

namespace ProcFS.Data

open Ctl (procfsCtlMaxpayload)

/-! ## Address spaces -/

/-- What `mach_vm_region` says of a region with `VM_REGION_BASIC_INFO_64`. -/
structure BasicInfo where
  protection : UInt32
  maxProtection : UInt32
  shared : UInt32
  offset : UInt64
  userWiredCount : UInt32
deriving DecidableEq, Repr

/-- What it says with `VM_REGION_EXTENDED_INFO`. -/
structure ExtendedInfo where
  pagesResident : UInt32
  pagesSwappedOut : UInt32
  pagesDirtied : UInt32
  externalPager : UInt32
  shareMode : UInt32
deriving DecidableEq, Repr

structure VmRegion where
  address : UInt64
  size : UInt64
  basic : BasicInfo
  extended : ExtendedInfo
deriving DecidableEq, Repr

/-- Where a region ends, which may be 2^64. -/
def VmRegion.stop (r : VmRegion) : ℕ := r.address.toNat + r.size.toNat

/-- The regions of a task: none is empty, none reaches past the top, and they are
disjoint and in ascending order. -/
structure VmMap where
  regions : List VmRegion
  size_pos : ∀ r ∈ regions, 0 < r.size.toNat
  stop_le : ∀ r ∈ regions, r.stop ≤ 2 ^ 64
  ascending : regions.Pairwise fun r s => r.stop ≤ s.address.toNat

/-- `mach_vm_region`: the region that contains the address, or else the first one
above it. -/
def machVmRegion (vm : VmMap) (addr : UInt64) : Option VmRegion :=
  vm.regions.find? fun r => addr.toNat < r.stop

/-! ## The daemon -/

/-- `struct procfs_map_region`. -/
structure MapRegion where
  start : UInt64
  size : UInt64
  offset : UInt64
  prot : UInt32
  maxProt : UInt32
  userWired : UInt32
  shareMode : UInt32
  residentPages : UInt32
  dirtyPages : UInt32
  swappedPages : UInt32
  externalPager : UInt32
  shared : UInt32
deriving DecidableEq, Repr

/-- `sizeof(struct procfs_map_region)`: three words of 8 bytes and nine of 4, padded to
a multiple of 8. -/
def sizeofMapRegion : ℕ := 64

def maxfit : ℕ := procfsCtlMaxpayload / sizeofMapRegion

/-- One record: the extended information is asked for in a second call, at the address
that the first one found, and is all zero if that fails. -/
def mapRecord (vm : VmMap) (r : VmRegion) : MapRegion :=
  let ei := ((machVmRegion vm r.address).map VmRegion.extended).getD ⟨0, 0, 0, 0, 0⟩
  { start := r.address
    size := r.size
    offset := r.basic.offset
    prot := r.basic.protection
    maxProt := r.basic.maxProtection
    userWired := r.basic.userWiredCount
    shareMode := ei.shareMode
    residentPages := ei.pagesResident
    dirtyPages := ei.pagesDirtied
    swappedPages := ei.pagesSwappedOut
    externalPager := ei.externalPager
    shared := r.basic.shared }

/-- The loop of `procfsd_handle_maps`, with room for `room` more records. -/
def mapsLoop (vm : VmMap) : ℕ → UInt64 → List MapRegion
  | 0, _ => []
  | room + 1, addr =>
    match machVmRegion vm addr with
    | none => []
    | some r =>
      let next := r.address + r.size
      mapRecord vm r :: if next ≤ r.address then [] else mapsLoop vm room next

/-- `procfsd_handle_maps`; `task` is what `task_for_pid` gave. -/
def procfsdHandleMaps (task : Option VmMap) (arg : UInt64) : Except Int32 (List MapRegion) :=
  match task with
  | none => .error Transfer.eperm
  | some vm => .ok (mapsLoop vm maxfit arg)

/-! ## The walk -/

/-- The loop of `procfs_map_walk`, for at most `fuel` passes: what it returns, and the
records that the callback was invoked with. -/
def mapWalkLoop (request : UInt64 → Except Int32 (List MapRegion)) :
    ℕ → UInt64 → Bool → List MapRegion → Option (Int32 × List MapRegion)
  | 0, _, _, _ => none
  | fuel + 1, addr, first, called =>
    match request addr with
    | .error rc =>
      -- once there was a reply, a failure ends the walk as an empty reply does
      if !first then some (0, called)
      else if rc = Ctl.enotconn ∨ rc = Ctl.etimedout then some (Transfer.enotsup, called)
      else some (rc, called)
    | .ok regs =>
      match regs.getLast? with
      | none => some (0, called)
      | some last =>
        -- the callback was invoked for the whole reply before its end is looked at
        let lastEnd := last.start + last.size
        if lastEnd ≤ addr then some (0, called ++ regs)
        else mapWalkLoop request fuel lastEnd false (called ++ regs)

def procfsMapWalk (request : UInt64 → Except Int32 (List MapRegion)) (fuel : ℕ) :
    Option (Int32 × List MapRegion) :=
  mapWalkLoop request fuel 0 true []

/-! ## Where a walk stands -/

/-- The regions from an address on are the last ones, `rest`. -/
structure Ahead (vm : VmMap) (addr : UInt64) (rest : List VmRegion) : Prop where
  suffix : rest <:+ vm.regions
  first : machVmRegion vm addr = rest.head?
  above : ∀ r ∈ rest, addr.toNat < r.stop

variable {r : VmRegion} {addr : UInt64} {vm : VmMap} {rest : List VmRegion}

theorem VmRegion.address_lt_stop (h : 0 < r.size.toNat) : r.address.toNat < r.stop := by
  unfold VmRegion.stop
  omega

/-- The end of a region, as both programs compute it. -/
theorem VmRegion.toNat_next (h : r.stop < 2 ^ 64) : (r.address + r.size).toNat = r.stop := by
  unfold VmRegion.stop at h ⊢
  rw [UInt64.toNat_add, Nat.mod_eq_of_lt h]

/-- It wraps to 0 at the top, so the test that ends both loops holds there and nowhere
else. -/
theorem VmRegion.next_le_iff (hstop : r.stop ≤ 2 ^ 64) (habove : addr.toNat < r.stop) :
    r.address + r.size ≤ addr ↔ r.stop = 2 ^ 64 := by
  rw [UInt64.le_iff_toNat_le]
  constructor
  · intro hle
    by_contra hne
    rw [VmRegion.toNat_next (Nat.lt_of_le_of_ne hstop hne)] at hle
    exact Nat.not_lt_of_le hle habove
  · intro htop
    unfold VmRegion.stop at htop
    rw [UInt64.toNat_add, htop, Nat.mod_self]
    exact Nat.zero_le _

theorem Ahead.mem (h : Ahead vm addr rest) (hr : r ∈ rest) : r ∈ vm.regions :=
  h.suffix.subset hr

theorem Ahead.ascending (h : Ahead vm addr rest) :
    rest.Pairwise fun r s => r.stop ≤ s.address.toNat :=
  vm.ascending.sublist h.suffix.sublist

/-- Regions that end at or before an address are passed over there. -/
theorem ahead_of_append {done rest : List VmRegion} (hregions : vm.regions = done ++ rest)
    (hdone : ∀ r ∈ done, r.stop ≤ addr.toNat) (habove : ∀ r ∈ rest, addr.toNat < r.stop) :
    Ahead vm addr rest := by
  refine ⟨⟨done, hregions.symm⟩, ?_, habove⟩
  have hskip : done.find? (fun r => decide (addr.toNat < r.stop)) = none := by
    rw [List.find?_eq_none]
    intro r hr
    have hle := hdone r hr
    simp only [decide_eq_true_eq]
    omega
  rw [machVmRegion, hregions, List.find?_append, hskip, Option.none_or]
  cases rest with
  | nil => rfl
  | cons r rest =>
    have hr := habove r List.mem_cons_self
    simp [hr]

theorem ahead_zero (vm : VmMap) : Ahead vm 0 vm.regions := by
  refine ahead_of_append (List.nil_append _).symm ?_ ?_
  · intro r hr
    cases hr
  · intro r hr
    have hlt := VmRegion.address_lt_stop (vm.size_pos r hr)
    have hzero : (0 : UInt64).toNat = 0 := rfl
    omega

/-- A region below the top has the others ahead of its end. -/
theorem Ahead.next (h : Ahead vm addr (r :: rest)) (hstop : r.stop < 2 ^ 64) :
    Ahead vm (r.address + r.size) rest := by
  rcases h.suffix with ⟨done, hdone⟩
  have hregions : vm.regions = (done ++ [r]) ++ rest := by
    rw [← hdone, List.append_assoc, List.singleton_append]
  have hpair := vm.ascending
  rw [hregions, List.pairwise_append] at hpair
  rcases hpair with ⟨hbefore, -, hcross⟩
  rw [List.pairwise_append] at hbefore
  have hnext := VmRegion.toNat_next hstop
  refine ahead_of_append hregions ?_ ?_
  · intro q hq
    rw [hnext]
    rcases List.mem_append.mp hq with hq | hq
    · -- an earlier one ends where this one begins, or before
      have hle := hbefore.2.2 q hq r List.mem_cons_self
      have hlt := VmRegion.address_lt_stop (vm.size_pos r (h.mem List.mem_cons_self))
      omega
    · rw [List.mem_singleton.mp hq]
  · intro q hq
    have hle := hcross r (by simp) q hq
    have hlt := VmRegion.address_lt_stop (vm.size_pos q (h.mem (List.mem_cons_of_mem r hq)))
    omega

/-- A region that ends at the top is the last one. -/
theorem Ahead.eq_nil_of_top (h : Ahead vm addr (r :: rest)) (hstop : r.stop = 2 ^ 64) :
    rest = [] := by
  rw [List.eq_nil_iff_forall_not_mem]
  intro q hq
  have hle := (List.pairwise_cons.mp h.ascending).1 q hq
  have hlt := q.address.toNat_lt
  omega

/-! ## One reply -/

/-- What there is to say of a region. -/
def VmRegion.record (r : VmRegion) : MapRegion where
  start := r.address
  size := r.size
  offset := r.basic.offset
  prot := r.basic.protection
  maxProt := r.basic.maxProtection
  userWired := r.basic.userWiredCount
  shareMode := r.extended.shareMode
  residentPages := r.extended.pagesResident
  dirtyPages := r.extended.pagesDirtied
  swappedPages := r.extended.pagesSwappedOut
  externalPager := r.extended.externalPager
  shared := r.basic.shared

/-- The second call finds the same region as the first. -/
theorem mapRecord_eq (hr : r ∈ vm.regions) : mapRecord vm r = r.record := by
  have hself : machVmRegion vm r.address = some r := by
    rcases List.append_of_mem hr with ⟨done, rest, hregions⟩
    have hpair := vm.ascending
    rw [hregions, List.pairwise_append] at hpair
    rcases hpair with ⟨-, hafter, hcross⟩
    have hlt := VmRegion.address_lt_stop (vm.size_pos r hr)
    refine (ahead_of_append hregions ?_ ?_).first
    · intro q hq
      exact hcross q hq r List.mem_cons_self
    · intro q hq
      rcases List.mem_cons.mp hq with rfl | hq
      · exact hlt
      · have hle := (List.pairwise_cons.mp hafter).1 q hq
        have hqmem : q ∈ vm.regions := by simp [hregions, hq]
        have hqlt := VmRegion.address_lt_stop (vm.size_pos q hqmem)
        omega
  simp only [mapRecord, hself, Option.map_some, Option.getD_some, VmRegion.record]

/-- A reply has the next regions, as many as there are or as fit. -/
theorem mapsLoop_ahead (h : Ahead vm addr rest) (room : ℕ) :
    mapsLoop vm room addr = (rest.take room).map VmRegion.record := by
  induction room generalizing addr rest with
  | zero => simp [mapsLoop]
  | succ room ih =>
    rw [mapsLoop, h.first]
    cases rest with
    | nil => rfl
    | cons r rest =>
      have hr := h.mem List.mem_cons_self
      simp only [List.head?_cons, List.take_succ_cons, List.map_cons, mapRecord_eq hr]
      congr 1
      have hends := VmRegion.next_le_iff (vm.stop_le r hr)
        (VmRegion.address_lt_stop (vm.size_pos r hr))
      rcases Nat.lt_or_eq_of_le (vm.stop_le r hr) with hbelow | htop
      · rw [if_neg (mt hends.mp hbelow.ne)]
        exact ih (h.next hbelow)
      · -- nothing is above a region at the top
        rw [if_pos (hends.mpr htop), h.eq_nil_of_top htop]
        simp

/-! ## The whole walk -/

/-- After some regions the others are ahead of where the last of them ended, unless it
ended at the top. -/
theorem Ahead.drop (h : Ahead vm addr rest) {n : ℕ} {last : VmRegion}
    (hlast : (rest.take n).getLast? = some last) :
    last.stop < 2 ^ 64 ∧ Ahead vm (last.address + last.size) (rest.drop n) ∨
      last.stop = 2 ^ 64 ∧ rest.drop n = [] := by
  induction n generalizing addr rest with
  | zero =>
    rw [List.take_zero] at hlast
    cases hlast
  | succ n ih =>
    cases rest with
    | nil =>
      rw [List.take_nil] at hlast
      cases hlast
    | cons r rest =>
      rw [List.take_succ_cons] at hlast
      rw [List.drop_succ_cons]
      rcases Nat.lt_or_eq_of_le (vm.stop_le r (h.mem List.mem_cons_self)) with hbelow | htop
      · cases htake : (rest.take n).getLast? with
        | some q =>
          rw [List.getLast?_cons, htake, Option.getD_some] at hlast
          cases hlast
          exact ih (h.next hbelow) htake
        | none =>
          rw [List.getLast?_cons, htake, Option.getD_none] at hlast
          cases hlast
          -- this was the only one taken
          have hnil := List.getLast?_eq_none_iff.mp htake
          have hrest := h.next hbelow
          rcases List.take_eq_nil_iff.mp hnil with rfl | rfl
          · exact Or.inl ⟨hbelow, hrest⟩
          · rw [List.drop_nil]
            exact Or.inl ⟨hbelow, hrest⟩
      · have hrest := h.eq_nil_of_top htop
        subst hrest
        rw [List.take_nil] at hlast
        cases hlast
        exact Or.inr ⟨htop, List.drop_nil⟩

/-- A pass takes at least one region off the ones ahead, so as many passes as there are
regions are enough, and one more sees the empty reply. -/
theorem mapWalkLoop_ahead {vm : VmMap} {addr : UInt64} {rest : List VmRegion} {first : Bool}
    {called : List MapRegion} {fuel : ℕ} (h : Ahead vm addr rest) (hfuel : rest.length < fuel) :
    mapWalkLoop (procfsdHandleMaps (some vm)) fuel addr first called =
      some (0, called ++ rest.map VmRegion.record) := by
  induction fuel generalizing addr rest first called with
  | zero => exact absurd hfuel (Nat.not_lt_zero _)
  | succ fuel ih =>
    simp only [mapWalkLoop, procfsdHandleMaps, mapsLoop_ahead h, List.getLast?_map]
    have hsplit := List.take_append_drop maxfit rest
    cases hlast : (rest.take maxfit).getLast? with
    | none =>
      -- the reply is empty
      have hnil : rest = [] := by
        rcases List.take_eq_nil_iff.mp (List.getLast?_eq_none_iff.mp hlast) with hzero | hnil
        · exact absurd hzero (by decide)
        · exact hnil
      simp [hnil]
    | some last =>
      have hmem : last ∈ rest := List.mem_of_mem_take (List.mem_of_getLast? hlast)
      have hends := VmRegion.next_le_iff (vm.stop_le last (h.mem hmem)) (h.above last hmem)
      simp only [Option.map_some, VmRegion.record]
      rcases h.drop hlast with ⟨hbelow, hahead⟩ | ⟨htop, hdrop⟩
      · rw [if_neg (mt hends.mp hbelow.ne)]
        have hshorter : (rest.drop maxfit).length < fuel := by
          have hpos := List.length_pos_of_mem hmem
          have hfit : 0 < maxfit := by decide
          rw [List.length_drop]
          omega
        have hrec := @ih _ _ false (called ++ (rest.take maxfit).map VmRegion.record)
          hahead hshorter
        rw [List.append_assoc, ← List.map_append, hsplit] at hrec
        exact hrec
      · rw [if_pos (hends.mpr htop)]
        rw [hdrop, List.append_nil] at hsplit
        rw [hsplit]

/-- The walk ends, and its callback was invoked once for each region and in their order,
however many there are. -/
theorem mapWalk_visits_regions (vm : VmMap) {fuel : ℕ} (hfuel : vm.regions.length < fuel) :
    procfsMapWalk (procfsdHandleMaps (some vm)) fuel =
      some (0, vm.regions.map VmRegion.record) := by
  have hwalk := @mapWalkLoop_ahead vm 0 vm.regions true [] fuel (ahead_zero vm) hfuel
  rwa [List.nil_append] at hwalk

/-- A page at the bottom, and one that ends at the very top. -/
def bottomAndTop : VmMap where
  regions :=
    [⟨0, 4096, ⟨1, 7, 0, 0, 0⟩, ⟨1, 0, 0, 0, 2⟩⟩,
     ⟨0xfffffffffffff000, 4096, ⟨5, 5, 1, 0, 0⟩, ⟨1, 0, 0, 1, 3⟩⟩]
  size_pos := by decide
  stop_le := by decide
  ascending := by decide

theorem mapWalk_visits_bottomAndTop :
    procfsMapWalk (procfsdHandleMaps (some bottomAndTop)) 3 =
      some (0, bottomAndTop.regions.map VmRegion.record) :=
  mapWalk_visits_regions bottomAndTop (by decide)

end ProcFS.Data
