import Mathlib.Data.UInt
import ProcFS.Data.Smaps
import ProcFS.Lib.Visit
import ProcFS.Text

/-!
# ProcFS.Data.MapsText — one address space in four nodes

`/proc/<pid>/maps` and `/proc/<pid>/map` print a line for each region, in the formats of Linux and
of NetBSD. `procfs_task_vm_sizes` adds the regions up, for the nodes that print the sizes of a
process when the daemon does not know them. All of them, and `smaps_rollup`, are made by callbacks
of one walk.

The sizes are those of the lines, although the end of a region at the very top is printed as 0.

* `sum_mapsEntry`: the sizes of the lines.
* `privateKb_eq`: what is private to `smaps_rollup` is resident.
* `one_address_space`: what the four nodes tell of one address space.
-/

namespace ProcFS.Data

open Lib

/-! ## The callbacks -/

/-- `struct procfs_region`. -/
structure Region where
  start : UInt64
  stop : UInt64
  offset : UInt64
  prot : UInt32
  maxProt : UInt32
  shared : UInt32
  wired : UInt32
deriving DecidableEq, Repr

/-- What `procfs_map_render_cb` passes on. -/
def procfsMapRenderCb (mr : MapRegion) : Region where
  start := mr.start
  stop := mr.start + mr.size
  offset := mr.offset
  prot := mr.prot
  maxProt := mr.maxProt
  shared := mr.shared
  wired := mr.userWired

/-- The letters for `VM_PROT_READ`, `VM_PROT_WRITE` and `VM_PROT_EXECUTE`. -/
def rights (prot : UInt32) : CString :=
  [if prot &&& 1 ≠ 0 then 114 else 45, if prot &&& 2 ≠ 0 then 119 else 45,
    if prot &&& 4 ≠ 0 then 120 else 45]

/-- The line of `procfs_maps_fmt_linux`. -/
def linuxFields (r : Region) : List CString :=
  [hexField false 16 r.start.toNat ++ cstr "-" ++ hexField false 16 r.stop.toNat,
    rights r.prot ++ [if r.shared ≠ 0 then 115 else 112], hexField false 16 r.offset.toNat,
    cstr "00:00", cstr "0", []]

/-- `%#018llx`, which leaves the prefix of a zero out. -/
def hashHex (n : ℕ) : CString :=
  if n = 0 then List.replicate 18 48 else cstr "0x" ++ hexField false 16 n

/-- The line of `procfs_map_fmt_netbsd`. -/
def netbsdFields (r : Region) : List CString :=
  [hashHex r.start.toNat, hashHex r.stop.toNat, rights r.prot, rights r.maxProt,
    if r.shared ≠ 0 then cstr "share" else cstr "priv", fmtNat r.wired.toNat]

/-- Fields with blanks between them. -/
def lineOfFields (fields : List CString) : CString := [32].intercalate fields

/-- `procfs_maps_fmt_linux` and `procfs_map_fmt_netbsd`: a line for a region. -/
def procfsMapsFmtLinux (r : Region) : CString := lineOfFields (linuxFields r) ++ cstr "\n"
def procfsMapFmtNetbsd (r : Region) : CString := lineOfFields (netbsdFields r) ++ cstr "\n"

def procfsMapSizesCb (pageSize : UInt64) (c : UInt64 × UInt64) (mr : MapRegion) : UInt64 × UInt64 :=
  (c.1 + mr.size,
    if sharedModes.contains mr.shareMode then c.2 else c.2 + mr.residentPages.toUInt64 * pageSize)

/-! ## The nodes -/

section Nodes

variable (pt : ProcTable) (creds : Cred) (sbufNew : Bool) (pageSize : UInt64)
  (request : Int32 → UInt64 → Except Int32 (List MapRegion)) (fuel : ℕ) (pnp : Pfsnode)

def procfsMapRender (fmt : Region → CString) : Option (Except Int32 CString) :=
  match pt.procFind pnp.nodeId.nodeidPid with
  | none => some (.error Errno.ESRCH.code)
  | some p =>
    match procfsCheckCanAccessProcess creds p with
    | some e => some (.error e.code)
    | none =>
      if sbufNew then
        (procfsMapWalk (request pnp.nodeId.nodeidPid) fuel).map fun (error, called) =>
          if error ≠ 0 then .error error
          else .ok (called.foldl (fun sb mr => sb ++ fmt (procfsMapRenderCb mr)) [])
      else some (.error Transfer.enomem)

def procfsDomaps : Option (Except Int32 CString) :=
  procfsMapRender pt creds sbufNew request fuel pnp procfsMapsFmtLinux

def procfsDomap : Option (Except Int32 CString) :=
  procfsMapRender pt creds sbufNew request fuel pnp procfsMapFmtNetbsd

/-- `procfs_task_vm_sizes`: the error code and the two sizes. -/
def procfsTaskVmSizes (pid : Int32) : Option (Int32 × UInt64 × UInt64) :=
  (procfsMapWalk (request pid) fuel).map fun (error, called) =>
    if error ≠ 0 then (error, 0, 0) else (0, called.foldl (procfsMapSizesCb pageSize) (0, 0))

end Nodes

/-! ## Reading the texts -/

def readAddr (s : CString) : Option UInt64 := (readHex s).map UInt64.ofNat

/-- Three letters, each of them or a dash. -/
def readRights (s : CString) : Option (Bool × Bool × Bool) :=
  match s with
  | [r, w, x] =>
    if (r = 114 ∨ r = 45) ∧ (w = 119 ∨ w = 45) ∧ (x = 120 ∨ x = 45) then
      some (r = 114, w = 119, x = 120)
    else none
  | _ => none

/-- What a program reads in a line of `maps`. -/
structure MapsEntry where
  start : UInt64
  stop : UInt64
  rights : Bool × Bool × Bool
  shared : Bool
  offset : UInt64
deriving DecidableEq, Repr

def readMapsLine (line : CString) : Option MapsEntry :=
  match line.splitOn 32 with
  | [range, letters, offset, _, _, _] => do
    let ends ← cutFirst 45 range
    let start ← readAddr ends.1
    let stop ← readAddr ends.2
    let rights ← readRights letters.dropLast
    let offset ← readAddr offset
    return ⟨start, stop, rights, letters.getLast? = some 115, offset⟩
  | _ => none

/-- What a program reads in a line of `map`. -/
structure MapEntry where
  start : UInt64
  stop : UInt64
  rights : Bool × Bool × Bool
  maxRights : Bool × Bool × Bool
  shared : Bool
  wired : ℕ
deriving DecidableEq, Repr

def readMapLine (line : CString) : Option MapEntry :=
  match line.splitOn 32 with
  | [start, stop, rights, maxRights, shared, wired] => do
    let start ← readAddr (start.drop 2)
    let stop ← readAddr (stop.drop 2)
    let rights ← readRights rights
    let maxRights ← readRights maxRights
    let wired ← readNat wired
    return ⟨start, stop, rights, maxRights, shared = cstr "share", wired⟩
  | _ => none

def readMaps (text : CString) : Option (List MapsEntry) := (linesOf 10 text).mapM readMapsLine

def readMap (text : CString) : Option (List MapEntry) := (linesOf 10 text).mapM readMapLine

def rightsOf (prot : UInt32) : Bool × Bool × Bool :=
  (prot &&& 1 ≠ 0, prot &&& 2 ≠ 0, prot &&& 4 ≠ 0)

/-- What the nodes say of a region. -/
def Region.mapsEntry (r : Region) : MapsEntry :=
  ⟨r.start, r.stop, rightsOf r.prot, r.shared ≠ 0, r.offset⟩

def Region.mapEntry (r : Region) : MapEntry :=
  ⟨r.start, r.stop, rightsOf r.prot, rightsOf r.maxProt, r.shared ≠ 0, r.wired.toNat⟩

/-! ## One line -/

theorem readAddr_hexField (n : UInt64) : readAddr (hexField false 16 n.toNat) = some n := by
  rw [readAddr, readHex_hexField, Option.map_some, UInt64.ofNat_toNat]

theorem drop_hashHex (n : ℕ) : (hashHex n).drop 2 = hexField false 16 n := by
  rw [hashHex]
  split
  · rename_i hzero
    rw [hzero]
    decide
  · rfl

theorem notMem_hashHex {sep : UInt8} (hsep : isHex sep = false) (hx : sep ≠ 120) (n : ℕ) :
    sep ∉ hashHex n := by
  have hzero : sep ≠ 48 := by
    rintro rfl
    exact absurd hsep (by decide)
  rw [hashHex]
  split
  · intro hmem
    exact hzero (List.eq_of_mem_replicate hmem)
  · simp [cstr, hzero, hx, notMem_hexField hsep]

/-- A letter or a dash. -/
theorem notMem_rights {sep : UInt8} (hr : sep ≠ 114) (hw : sep ≠ 119) (hx : sep ≠ 120)
    (hdash : sep ≠ 45) (prot : UInt32) : sep ∉ rights prot := by
  simp only [rights, List.mem_cons, List.not_mem_nil, or_false, not_or]
  refine ⟨?_, ?_, ?_⟩ <;> split <;> assumption

theorem readRights_rights (prot : UInt32) : readRights (rights prot) = some (rightsOf prot) := by
  simp only [rights, readRights, rightsOf]
  by_cases hr : prot &&& 1 ≠ 0 <;> by_cases hw : prot &&& 2 ≠ 0 <;> by_cases hx : prot &&& 4 ≠ 0 <;>
    simp [hr, hw, hx]

/-- Neither a blank nor a newline is in a field. -/
def FieldsOk (fields : List CString) : Prop := ∀ f ∈ fields, 32 ∉ f ∧ 10 ∉ f

theorem rights_clean (prot : UInt32) : 32 ∉ rights prot ∧ 10 ∉ rights prot :=
  ⟨notMem_rights (by decide) (by decide) (by decide) (by decide) prot,
    notMem_rights (by decide) (by decide) (by decide) (by decide) prot⟩

theorem fieldsOk_linux (r : Region) : FieldsOk (linuxFields r) := by
  have hhex : ∀ n, 32 ∉ hexField false 16 n ∧ 10 ∉ hexField false 16 n := fun n =>
    ⟨notMem_hexField (by decide) 16 n, notMem_hexField (by decide) 16 n⟩
  intro f hf
  simp only [linuxFields, List.mem_cons, List.not_mem_nil, or_false] at hf
  rcases hf with rfl | rfl | rfl | rfl | rfl | rfl
  · simp [cstr, (hhex _).1, (hhex _).2]
  · by_cases hshared : r.shared ≠ 0 <;> simp [hshared, (rights_clean _).1, (rights_clean _).2]
  · exact hhex _
  · decide
  · decide
  · decide

theorem fieldsOk_netbsd (r : Region) : FieldsOk (netbsdFields r) := by
  have hhex : ∀ n, 32 ∉ hashHex n ∧ 10 ∉ hashHex n := fun n =>
    ⟨notMem_hashHex (by decide) (by decide) n, notMem_hashHex (by decide) (by decide) n⟩
  intro f hf
  simp only [netbsdFields, List.mem_cons, List.not_mem_nil, or_false] at hf
  rcases hf with rfl | rfl | rfl | rfl | rfl | rfl
  · exact hhex _
  · exact hhex _
  · exact rights_clean _
  · exact rights_clean _
  · by_cases hshared : r.shared ≠ 0 <;> simp [hshared] <;> decide
  · exact ⟨notMem_fmtNat (by decide) _, notMem_fmtNat (by decide) _⟩

theorem FieldsOk.splitOn {fields : List CString} (h : FieldsOk fields) (hne : fields ≠ []) :
    (lineOfFields fields).splitOn 32 = fields :=
  List.splitOn_intercalate 32 (fun f hf => (h f hf).1) hne

theorem FieldsOk.newline {fields : List CString} (h : FieldsOk fields) :
    10 ∉ lineOfFields fields :=
  notMem_intercalate (by decide) fun f hf => (h f hf).2

theorem readMapsLine_linux (r : Region) :
    readMapsLine (lineOfFields (linuxFields r)) = some r.mapsEntry := by
  have hends : cutFirst 45 (hexField false 16 r.start.toNat ++ cstr "-" ++
      hexField false 16 r.stop.toNat) =
        some (hexField false 16 r.start.toNat, hexField false 16 r.stop.toNat) := by
    have hdash : cstr "-" = [45] := rfl
    rw [hdash, List.append_assoc, List.singleton_append]
    exact cutFirst_append (notMem_hexField (by decide) 16 _) _
  rw [readMapsLine, (fieldsOk_linux r).splitOn (by simp [linuxFields])]
  simp only [linuxFields, hends, Option.bind_eq_bind, Option.bind_some, readAddr_hexField,
    List.dropLast_concat, readRights_rights, List.getLast?_concat]
  by_cases hshared : r.shared ≠ 0 <;> simp [Region.mapsEntry, hshared]

theorem readMapLine_netbsd (r : Region) :
    readMapLine (lineOfFields (netbsdFields r)) = some r.mapEntry := by
  rw [readMapLine, (fieldsOk_netbsd r).splitOn (by simp [netbsdFields])]
  simp only [netbsdFields, drop_hashHex, Option.bind_eq_bind, Option.bind_some, readAddr_hexField,
    readRights_rights, readNat_fmtNat]
  have hshare : cstr "priv" ≠ cstr "share" := by decide
  by_cases hshared : r.shared ≠ 0 <;> simp [Region.mapEntry, hshared, hshare]

/-! ## All regions -/

theorem readMaps_text (regs : List MapRegion) :
    readMaps (regs.foldl (fun sb mr => sb ++ procfsMapsFmtLinux (procfsMapRenderCb mr)) []) =
      some (regs.map fun mr => (procfsMapRenderCb mr).mapsEntry) := by
  rw [foldl_append_eq, List.nil_append, readMaps]
  apply mapM_linesOf_flatMap fun mr => lineOfFields (linuxFields (procfsMapRenderCb mr))
  · intro mr _
    rfl
  · intro mr _
    exact (fieldsOk_linux _).newline
  · intro mr _
    exact readMapsLine_linux (procfsMapRenderCb mr)

theorem readMap_text (regs : List MapRegion) :
    readMap (regs.foldl (fun sb mr => sb ++ procfsMapFmtNetbsd (procfsMapRenderCb mr)) []) =
      some (regs.map fun mr => (procfsMapRenderCb mr).mapEntry) := by
  rw [foldl_append_eq, List.nil_append, readMap]
  apply mapM_linesOf_flatMap fun mr => lineOfFields (netbsdFields (procfsMapRenderCb mr))
  · intro mr _
    rfl
  · intro mr _
    exact (fieldsOk_netbsd _).newline
  · intro mr _
    exact readMapLine_netbsd (procfsMapRenderCb mr)

/-! ## The sizes -/

/-- What a region adds to the resident size. -/
def residentOf (pageSize : UInt64) (mr : MapRegion) : UInt64 :=
  if sharedModes.contains mr.shareMode then 0 else mr.residentPages.toUInt64 * pageSize

theorem foldl_sizes (pageSize : UInt64) (regs : List MapRegion) (c : UInt64 × UInt64) :
    regs.foldl (procfsMapSizesCb pageSize) c =
      (c.1 + (regs.map MapRegion.size).sum, c.2 + (regs.map (residentOf pageSize)).sum) := by
  induction regs generalizing c with
  | nil => simp
  | cons mr regs ih =>
    have hstep : procfsMapSizesCb pageSize c mr =
        (c.1 + mr.size, c.2 + residentOf pageSize mr) := by
      rw [procfsMapSizesCb, residentOf]
      split <;> simp
    rw [List.foldl_cons, ih, hstep, List.map_cons, List.map_cons, List.sum_cons, List.sum_cons,
      UInt64.add_assoc, UInt64.add_assoc]

/-- The sizes of the lines, whatever the end of the last region was printed as. -/
theorem sum_mapsEntry (regs : List MapRegion) :
    ((regs.map fun mr => (procfsMapRenderCb mr).mapsEntry).map fun e => e.stop - e.start).sum =
      (regs.map MapRegion.size).sum := by
  rw [List.map_map]
  refine congrArg List.sum (List.map_congr_left fun mr _ => ?_)
  show mr.start + mr.size - mr.start = mr.size
  rw [UInt64.add_comm, UInt64.add_sub_cancel]

/-- The values of the rollup, modulo 2^64. -/
theorem foldl_rollup_value (pageSize : UInt64) (rs : List ExtRegion) (t : Rollup) (f : SmapsField) :
    (rs.foldl (procfsRollupCb pageSize) t).value f =
      t.value f + (rs.map fun r => smapsValue pageSize r f).sum := by
  induction rs generalizing t with
  | nil => simp
  | cons r rs ih =>
    rw [List.foldl_cons, ih, rollupCb_value, List.map_cons, List.sum_cons, UInt64.add_assoc]

/-- The private memory of a region is what it adds to the resident size. -/
theorem privateKb_eq {pageSize : UInt64} (hpage : pageKb pageSize * 1024 = pageSize)
    (mr : MapRegion) :
    1024 * (smapsValue pageSize (procfsMapExtCb mr) .privateClean +
      smapsValue pageSize (procfsMapExtCb mr) .privateDirty) = residentOf pageSize mr := by
  have hshared : (procfsMapExtCb mr).shared = sharedModes.contains mr.shareMode := rfl
  rw [smapsValue, smapsValue, residentOf, hshared]
  split
  · rfl
  · -- clean and dirty pages are all there are
    rw [cleanKb, UInt64.sub_add_cancel, rssKb, UInt64.mul_comm, UInt64.mul_assoc, hpage]
    rfl

theorem sum_privateKb {pageSize : UInt64} (hpage : pageKb pageSize * 1024 = pageSize)
    (regs : List MapRegion) :
    1024 * (((regs.map procfsMapExtCb).map fun r => smapsValue pageSize r .privateClean).sum +
      ((regs.map procfsMapExtCb).map fun r => smapsValue pageSize r .privateDirty).sum) =
      (regs.map (residentOf pageSize)).sum := by
  induction regs with
  | nil => rfl
  | cons mr regs ih =>
    have hone := privateKb_eq hpage mr
    simp only [List.map_cons, List.sum_cons]
    rw [← ih, ← hone]
    simp only [UInt64.mul_add]
    ac_rfl

/-! ## The four nodes -/

/-- What the nodes say of an address space: `maps` and `map` are read back region by region, in
the order of the addresses; the virtual size is that of the lines; and the resident size is the
private memory of `smaps_rollup`. -/
structure OneAddressSpace (vm : VmMap) (maps map : CString) (sizes : UInt64 × UInt64) (t : Rollup) :
    Prop where
  maps_read : readMaps maps =
    some (vm.regions.map fun r => (procfsMapRenderCb r.record).mapsEntry)
  map_read : readMap map = some (vm.regions.map fun r => (procfsMapRenderCb r.record).mapEntry)
  vsize_eq : ∀ entries, readMaps maps = some entries →
    sizes.1 = (entries.map fun e => e.stop - e.start).sum
  rsize_eq : sizes.2 = 1024 * (t.privateClean + t.privateDirty)

/-- What `procfs_map_render` makes of a walk. -/
theorem mapRender_eq {pt : ProcTable} {creds : Cred} {pnp : Pfsnode} {p : Proc}
    {request : Int32 → UInt64 → Except Int32 (List MapRegion)} {fuel : ℕ} {regs : List MapRegion}
    (hproc : pt.procFind pnp.nodeId.nodeidPid = some p)
    (haccess : procfsCheckCanAccessProcess creds p = none)
    (hwalk : procfsMapWalk (request pnp.nodeId.nodeidPid) fuel = some (0, regs))
    (fmt : Region → CString) :
    procfsMapRender pt creds true request fuel pnp fmt =
      some (.ok (regs.foldl (fun sb mr => sb ++ fmt (procfsMapRenderCb mr)) [])) := by
  simp only [procfsMapRender, hproc, haccess, hwalk]
  rfl

theorem oneAddressSpace (vm : VmMap) {pageSize : UInt64}
    (hpage : pageKb pageSize * 1024 = pageSize) {regs : List MapRegion}
    (hregs : regs = vm.regions.map VmRegion.record) :
    OneAddressSpace vm
      (regs.foldl (fun sb mr => sb ++ procfsMapsFmtLinux (procfsMapRenderCb mr)) [])
      (regs.foldl (fun sb mr => sb ++ procfsMapFmtNetbsd (procfsMapRenderCb mr)) [])
      (regs.foldl (procfsMapSizesCb pageSize) (0, 0)) (rollupOf pageSize regs) where
  maps_read := by
    rw [readMaps_text, hregs, List.map_map]
    rfl
  map_read := by
    rw [readMap_text, hregs, List.map_map]
    rfl
  vsize_eq := by
    intro entries hentries
    rw [readMaps_text] at hentries
    cases hentries
    rw [sum_mapsEntry, foldl_sizes]
    exact UInt64.zero_add _
  rsize_eq := by
    have hclean := foldl_rollup_value pageSize (regs.map procfsMapExtCb) Rollup.zero .privateClean
    have hdirty := foldl_rollup_value pageSize (regs.map procfsMapExtCb) Rollup.zero .privateDirty
    rw [← rollupOf] at hclean hdirty
    have hzero : ∀ f, Rollup.zero.value f = 0 := by
      intro f
      cases f <;> rfl
    rw [hzero, UInt64.zero_add] at hclean hdirty
    have hsum := sum_privateKb hpage regs
    rw [← hclean, ← hdirty] at hsum
    rw [foldl_sizes, ← hsum]
    exact UInt64.zero_add _

/-- Whatever the address space, for a reader who may see the process: all four nodes are printed,
and they tell of the same regions. -/
theorem one_address_space {pt : ProcTable} {creds : Cred} {pnp : Pfsnode} {p : Proc}
    {request : Int32 → UInt64 → Except Int32 (List MapRegion)} {vm : VmMap} {fuel : ℕ}
    {pageSize : UInt64} (hproc : pt.procFind pnp.nodeId.nodeidPid = some p)
    (haccess : procfsCheckCanAccessProcess creds p = none)
    (htask : request pnp.nodeId.nodeidPid = procfsdHandleMaps (some vm))
    (hfuel : vm.regions.length < fuel) (hpage : pageKb pageSize * 1024 = pageSize) :
    ∃ maps map sizes t,
      procfsDomaps pt creds true request fuel pnp = some (.ok maps) ∧
      procfsDomap pt creds true request fuel pnp = some (.ok map) ∧
      procfsTaskVmSizes pageSize request fuel pnp.nodeId.nodeidPid = some (0, sizes) ∧
      procfsDosmapsRollup pt creds true pageSize request fuel pnp = some (.ok t.text) ∧
      OneAddressSpace vm maps map sizes t := by
  have hwalk : procfsMapWalk (request pnp.nodeId.nodeidPid) fuel =
      some (0, vm.regions.map VmRegion.record) := by
    have hloop := @mapWalkLoop_ahead vm 0 vm.regions true [] fuel (ahead_zero vm) hfuel
    rw [List.nil_append] at hloop
    rw [htask]
    exact hloop
  have hsizes : procfsTaskVmSizes pageSize request fuel pnp.nodeId.nodeidPid =
      some (0, (vm.regions.map VmRegion.record).foldl (procfsMapSizesCb pageSize) (0, 0)) := by
    simp only [procfsTaskVmSizes, hwalk]
    rfl
  exact ⟨_, _, _, _, mapRender_eq hproc haccess hwalk _, mapRender_eq hproc haccess hwalk _, hsizes,
    (dosmaps_eq pageSize hproc haccess hwalk).2, oneAddressSpace vm hpage rfl⟩

def shMaps : Pfsnode where
  nodeMntId := 1
  nodeId := ⟨7, 0, 20⟩
  nodeStructureNode := ⟨0, 20, .file, cstr "maps", 20, psnFlagProcess, some 2⟩
  nodeVnode := ⟨0, .VREG⟩

/-- The shell, with a page at the bottom and one that ends at the very top. -/
theorem one_address_space_bottomAndTop :
    ∃ maps map sizes t,
      procfsDomaps (ProcTable.single shProc (by decide)) ⟨501, 20⟩ true
        (fun _ => procfsdHandleMaps (some bottomAndTop)) 3 shMaps = some (.ok maps) ∧
      procfsDomap (ProcTable.single shProc (by decide)) ⟨501, 20⟩ true
        (fun _ => procfsdHandleMaps (some bottomAndTop)) 3 shMaps = some (.ok map) ∧
      procfsTaskVmSizes 4096 (fun _ => procfsdHandleMaps (some bottomAndTop)) 3 7 =
        some (0, sizes) ∧
      procfsDosmapsRollup (ProcTable.single shProc (by decide)) ⟨501, 20⟩ true 4096
        (fun _ => procfsdHandleMaps (some bottomAndTop)) 3 shMaps = some (.ok t.text) ∧
      OneAddressSpace bottomAndTop maps map sizes t :=
  one_address_space (p := shProc) rfl rfl rfl (by decide) (by decide)

end ProcFS.Data
