import ProcFS.Accepted
import ProcFS.Dots
import ProcFS.Text

/-!
# ProcFS.Links — symbolic links

`curproc` and `self` in the root are links to the directory of the process that reads them, and
`byname` has a link for each process, to `../<pid>`. `procfs_vnop_readlink` prints the target; the
kernel takes it apart and calls `procfs_vnop_lookup` for each component, with the access check of
the caller that follows the link. Nothing ties the two together but the text: the link must lead
from the directory it lies in to the process it stands for, whoever follows it and whenever.

* `link_place`: where the links to processes are in the tree.
* `link_matched`: a link that a lookup found is the child that was matched.
* `link_leads_to_process`: every link that was ever found leads to its process.
-/

namespace ProcFS

open Lib

/-! ## Reading a link -/

/-- A vnode as `procfs_proclink_path` uses it: whether `vnode_get` takes a reference to it, and the
path that `vn_getpath` finds. -/
structure LinkVnode where
  live : Bool
  path : Option CString
deriving DecidableEq, Repr

/-- The vnodes that a process refers to: its executable, its current and its root directory. -/
structure ProcVnodes where
  pTextvp : Option LinkVnode
  fdCdir : Option LinkVnode
  fdRdir : Option LinkVnode
deriving DecidableEq, Repr

def procfsProclinkPath (procs : ProcTable) (vnodes : Int32 → ProcVnodes) (pid : Int32)
    (name : CString) : Except Errno CString :=
  if (procs.procFind pid).isNone then .error .ESRCH
  else
    let vp :=
      if name = cstr "exe" then (vnodes pid).pTextvp
      else if name = cstr "cwd" then (vnodes pid).fdCdir
      else if name = cstr "root" then (vnodes pid).fdRdir
      else none
    match vp with
    | some ⟨true, some path⟩ => .ok path
    | some ⟨true, none⟩ => .error .ENOENT
    -- no explicit root directory: it is that of the system
    | _ => if name = cstr "root" then .ok (cstr "/") else .error .ENOENT

def processNameSize : ℕ := maxcomlen + 16 + 8

/-- What a reader of a link brings along: its own pid, the vnodes of the processes, and the room in
its buffer. -/
structure LinkReader where
  currentPid : Int32
  vnodes : Int32 → ProcVnodes
  room : ℕ

/-- `procfs_vnop_readlink`. `uiomove` copies as much as there is room for. -/
def procfsVnopReadlink (w : World) (r : LinkReader) (pnp : Pfsnode) : Except Errno CString :=
  let snode := pnp.nodeStructureNode
  if snode.psnNodeType = .curproc then
    .ok ((snprintf processNameSize (fmtInt r.currentPid.toInt)).held.take r.room)
  else if snode.psnNodeType = .procnamedir then
    .ok ((snprintf processNameSize (cstr "../" ++ fmtInt pnp.nodeId.nodeidPid.toInt)).held.take
      r.room)
  else if snode.psnNodeType = .proclink then
    (procfsProclinkPath w.procs r.vnodes pnp.nodeId.nodeidPid snode.psnName).map
      (List.take r.room)
  else .error .EINVAL

/-! ## Following a path -/

def components (path : CString) : List CString := (path.splitOn 47).filter (· ≠ [])

/-- The lookups of the kernel along a path, each in the directory that the one before it found. -/
def walkPath (w : World) (c : Caller) (env : VnodeEnv) :
    List CString → Pfsnode → List Pfsnode → Reply Pfsnode × List Pfsnode
  | [], dir, table => (.ok dir, table)
  | name :: rest, dir, table =>
    match procfsVnopLookup w c table dir name env with
    | (.ok pnp, table') => walkPath w c env rest pnp table'
    | (reply, table') => (reply, table')

theorem walkPath_singleton (w : World) (c : Caller) (env : VnodeEnv) (name : CString)
    (dir : Pfsnode) (table : List Pfsnode) :
    (walkPath w c env [name] dir table).1 = (procfsVnopLookup w c table dir name env).1 := by
  rw [walkPath]
  rcases procfsVnopLookup w c table dir name env with ⟨_ | _ | _, _⟩ <;> rfl

/-- A path is taken apart into the names it was made of. -/
theorem components_intercalate {names : List CString} (hne : names ≠ [])
    (h : ∀ name ∈ names, (47 : UInt8) ∉ name ∧ name ≠ []) :
    components ([47].intercalate names) = names := by
  rw [components, List.splitOn_intercalate 47 (fun name hname => (h name hname).1) hne,
    List.filter_eq_self]
  intro name hname
  exact decide_eq_true (h name hname).2

theorem number_component (n : ℤ) : (47 : UInt8) ∉ fmtInt n ∧ fmtInt n ≠ [] := by
  rcases fmtInt_head n with ⟨b, rest, hname, -⟩
  exact ⟨notMem_fmtInt (by decide) (by decide) n, by simp [hname]⟩

theorem components_number (n : ℤ) : components (fmtInt n) = [fmtInt n] := by
  have hpath : [47].intercalate [fmtInt n] = fmtInt n := by simp
  rw [← hpath]
  refine (components_intercalate (by simp) ?_).trans (by rw [hpath])
  simpa using number_component n

theorem components_up_number (n : ℤ) :
    components (cstr "../" ++ fmtInt n) = [cstr "..", fmtInt n] := by
  have hpath : [47].intercalate [cstr "..", fmtInt n] = cstr "../" ++ fmtInt n := by
    simp [List.intercalate, cstr]
  rw [← hpath]
  refine components_intercalate (by simp) ?_
  intro name hname
  rcases List.mem_pair.mp hname with rfl | rfl
  · decide
  · exact number_component n

/-! ## Where the links lie -/

variable {s : Pfssnode}

/-- The links to processes are in the root and in a directory of the root. -/
theorem link_place {build : ℕ} {next : UInt16} (hs : s ∈ (procfsStructureInit build next).nodes) :
    (s.psnNodeType = .curproc → s.psnParent = some 0) ∧
      (s.psnNodeType = .procnamedir → ∃ a, s.psnParent = some a ∧
        ∀ s' ∈ (procfsStructureInit build next).nodes, s'.psnAddr = a → s'.psnParent = some 0) := by
  have hall : ∀ s ∈ (procfsStructureInit 0 2).shape,
      (s.psnNodeType = .curproc → s.psnParent = some 0) ∧
        (s.psnNodeType = .procnamedir → s.psnParent = some 3) := by decide +kernel
  have hbyname : ∀ s ∈ (procfsStructureInit 0 2).shape, s.psnAddr = 3 → s.psnParent = some 0 := by
    decide +kernel
  rcases forall_shape hall hs with ⟨hcurproc, hnamedir⟩
  exact ⟨hcurproc, fun htype => ⟨3, hnamedir htype, fun s' hs' haddr =>
    forall_shape hbyname hs' haddr⟩⟩

section

variable {w : World} {c : Caller} {build : ℕ} {next : UInt16} {dir : Pfsnode}

/-- A directory with a child whose parent is the root has the structure node of the root. -/
theorem eq_root_of_child (htree : w.tree = procfsStructureInit build next)
    (hdir : dir.nodeStructureNode ∈ w.tree.nodes) (hs : s ∈ w.tree.children dir.nodeStructureNode)
    (hparent : s.psnParent = some 0) :
    dir.nodeStructureNode = ⟨build, 0, .root, cstr "/", procfsRootNodeBaseId, 0, none⟩ := by
  have haddr : s.psnParent = some dir.nodeStructureNode.psnAddr :=
    beq_iff_eq.mp (List.mem_filter.mp hs).2
  rw [htree] at hdir
  rw [hparent, Option.some.injEq] at haddr
  exact eq_root_of_psnAddr hdir haddr.symm

/-! ## The number of a process in the root -/

/-- What comes of the search for a process: its directory if the caller may see it, and otherwise
nothing. -/
structure FindsProcess (w : World) (c : Caller) (pid : Int32) (reply : Reply Pfsnode) : Prop where
  found : MaySee w c pid → ∃ pnp, reply = .ok pnp ∧ pnp.nodeStructureNode.psnNodeType = .proc ∧
    pnp.nodeId.nodeidPid = pid
  absent : ¬ MaySee w c pid → reply = .error .ENOENT

variable {name : CString}

theorem lookupProc_seen {pid : Int32} (htype : s.psnNodeType = .proc) (hsee : MaySee w c pid) :
    lookupProc w c dir name s pid =
      .ok (some (s, ⟨pid, dir.nodeId.nodeidObjectid, s.psnBaseNodeId⟩)) := by
  rcases maySee_iff_access.mp hsee with ⟨p, hlive, haccess⟩
  simp only [lookupProc, procMatchId, htype, hlive, reduceCtorEq, false_and, if_false,
    if_neg haccess]

theorem lookupProc_unseen {pid : Int32} (htype : s.psnNodeType = .proc) (hsee : ¬ MaySee w c pid) :
    lookupProc w c dir name s pid = .error .ENOENT := by
  rw [maySee_iff_access] at hsee
  cases hlive : w.procs.procFind pid with
  | none => simp [lookupProc, procMatchId, htype, hlive]
  | some p =>
    have hrefused : c.checkAccess = true ∧ procfsCheckCanAccessProcess c.cred p ≠ none := by
      by_contra haccess
      exact hsee ⟨p, hlive, haccess⟩
    simp [lookupProc, procMatchId, htype, hlive, hrefused]

/-- The name that a number has is looked up by the last child of the root. -/
theorem lookupMatch_root_number (htree : w.tree = procfsStructureInit build next)
    (hdir : Placed w.tree dir)
    (hroot : dir.nodeStructureNode = ⟨build, 0, .root, cstr "/", procfsRootNodeBaseId, 0, none⟩)
    (pid : Int32) : ∃ s ∈ w.tree.children dir.nodeStructureNode, s.psnNodeType = .proc ∧
      lookupMatch w c dir (fmtInt pid.toInt) =
        if 0 ≤ pid then lookupProc w c dir (fmtInt pid.toInt) s pid else .ok none := by
  have hlayout := layoutOk_of_mem htree hdir.mem
  rcases hlayout.root_lists (by rw [hroot]) with ⟨s, hs, htype⟩
  refine ⟨s, hs, htype, ?_⟩
  rw [lookupMatch_number htree hdir.mem hs (by rw [htype]; rfl)
    (fmtInt_ne_psnName htree hdir.mem pid.toInt), numberMatch, htype]
  by_cases hpid : 0 ≤ pid
  · have hread := procfsAtoi_fmtInt hpid
    have hne : pid ≠ -1 := by
      rintro rfl
      exact absurd hpid (by decide)
    simp [lookupNumber, htype, hread, hne, hpid]
  · have hneg : pid.toInt < 0 := by
      by_contra hnonneg
      exact hpid (Int32.le_iff_toInt_le.mpr (by simpa using not_lt.mp hnonneg))
    simp [lookupNumber, htype, procfsAtoi_fmtInt_neg hneg, hpid]

theorem lookup_root_number (htree : w.tree = procfsStructureInit build next)
    (hreach : Reach w.tree c.pmp dir)
    (hroot : dir.nodeStructureNode = ⟨build, 0, .root, cstr "/", procfsRootNodeBaseId, 0, none⟩)
    {table : List Pfsnode} (htable : TableReached w.tree c.pmp table) {env : VnodeEnv}
    (hmalloc : env.osMalloc = true) (hcreate : env.vnodeCreate = none) (pid : Int32) :
    FindsProcess w c pid (procfsVnopLookup w c table dir (fmtInt pid.toInt) env).1 := by
  have hdir := (hreach.placed htree).1
  have hne : dir.nodeStructureNode.psnNodeType ≠ .sysctl := by simp [hroot]
  have hvdir : dir.vnodeVtype = .VDIR := by
    rw [hdir.vtype_eq hne, hroot]
    rfl
  have hlen : (fmtInt pid.toInt).length ≤ nameMax :=
    (length_fmtInt_int pid).trans (by decide)
  rcases lookupMatch_root_number (c := c) htree hdir hroot pid with ⟨s, hs, htype, hmatch⟩
  rw [procfsVnopLookup_name (.of_ne_sysctl hvdir hne w.oids) (number_component pid.toInt).2
    (fmtInt_ne_dots pid.toInt), List.take_of_length_le hlen, hmatch]
  constructor
  · intro hsee
    have hpid : 0 ≤ pid := by
      rcases hsee with ⟨p, hlive, -⟩
      exact w.procs.pid_nonneg pid p hlive
    rw [if_pos hpid, lookupProc_seen htype hsee] at hmatch
    rw [if_pos hpid, lookupProc_seen htype hsee]
    rcases procfsnodeFind_succeeds table c.pmp ⟨pid, dir.nodeId.nodeidObjectid, s.psnBaseNodeId⟩ s
      hmalloc (procfsCreateVnode_of_none hcreate w.oids dir s _) with ⟨pnp, hok, hpnp, hcase⟩
    refine ⟨pnp, hok, ?_, by rw [hpnp]⟩
    rcases hcase with ⟨hmem, hmnt⟩ | rfl
    · -- a node that was in the table: the only other one with such an id would be the root
      have hplaced := ((htable pnp hmem hmnt).placed htree).1
      by_cases hsame : pnp.nodeStructureNode = s
      · rw [hsame, htype]
      · have hother := eq_root_of_shared_id htree hdir hmatch hplaced hpnp hsame
        have hnone := congrArg PfsId.nodeidPid (hplaced.root_ids hother).1
        rw [hpnp] at hnone
        have hneg : pid = prnodeNoPid := hnone
        rw [hneg] at hpid
        exact absurd hpid (by decide)
    · exact htype
  · intro hsee
    split_ifs
    · rw [lookupProc_unseen htype hsee]
    · rfl

/-! ## The links that lookups find -/

/-- Whatever a child accepts belongs to the process of the directory, or to one
that the caller may see. -/
theorem Accepts.seen {id : PfsId} (h : Accepts w c dir name s id) :
    id.nodeidPid = dir.nodeId.nodeidPid ∨ MaySee w c id.nodeidPid := by
  cases h with
  | named hname => exact Or.inl rfl
  | fd i htype hfd => exact Or.inl rfl
  | number i p htype hlive haccess => exact Or.inr (maySee_iff_access.mpr ⟨p, hlive, haccess⟩)

/-- A link that a lookup found is the child that was matched, whatever is in the table. -/
theorem link_matched (htree : w.tree = procfsStructureInit build next)
    (hreach : Reach w.tree c.pmp dir) {table : List Pfsnode}
    (htable : TableReached w.tree c.pmp table)
    (hdots : name ≠ cstr "." ∧ name ≠ cstr "..") {env : VnodeEnv} {link : Pfsnode}
    (hlookup : (procfsVnopLookup w c table dir name env).1 = .ok link)
    (hlink : procfsAllocvp link.nodeStructureNode.psnNodeType = .VLNK) :
    link.nodeStructureNode ∈ w.tree.children dir.nodeStructureNode ∧
      lookupMatch w c dir (name.take nameMax) =
        .ok (some (link.nodeStructureNode, link.nodeId)) := by
  have hdir := (hreach.placed htree).1
  have hresolves : Resolves w c dir name link.nodeId := ⟨table, env, link, htable, hlookup, rfl⟩
  rcases (resolves_iff (hresolves.isDir hdots) hresolves.ne_nil hdots).mp hresolves with
    ⟨s, hmatch⟩
  have hplaced := ((Reach.lookup w c.cred table name env rfl hreach htable hlookup).placed htree).1
  have hsame : link.nodeStructureNode = s := by
    by_contra hne
    rw [eq_root_of_shared_id htree hdir hmatch hplaced rfl hne] at hlink
    cases hlink
  rw [hsame]
  refine ⟨?_, hmatch⟩
  rcases lookupMatch_cases hmatch with ⟨hsysctl, hs, -⟩ | ⟨-, hs, -⟩
  · rw [hsame, hs, hsysctl] at hlink
    cases hlink
  · exact hs

/-- The process that a link stands for. -/
def linkedPid (r : LinkReader) (link : Pfsnode) : Int32 :=
  if link.nodeStructureNode.psnNodeType = .curproc then r.currentPid else link.nodeId.nodeidPid

/-- The root of the mount is what the table has under its id. -/
def RootHeld (w : World) (c : Caller) (table : List Pfsnode) : Prop :=
  ∃ root, IsRoot w c root ∧
    table.find? (fun pnp => pnp.nodeMntId = c.pmp.pmntId ∧ pnp.nodeId = procfsRootNodeId) =
      some root

/-- A target that is short enough is read whole. -/
theorem target_whole {room : ℕ} (hroom : processNameSize ≤ room) {text : CString}
    (hlen : text.length < processNameSize) :
    (snprintf processNameSize text).held.take room = text := by
  have hheld : (snprintf processNameSize text).held = text :=
    congrArg Printed.held (snprintf_holds hlen)
  rw [hheld, List.take_of_length_le (by omega)]

theorem readlink_curproc (w : World) {r : LinkReader} {link : Pfsnode}
    (hroom : processNameSize ≤ r.room) (htype : link.nodeStructureNode.psnNodeType = .curproc) :
    procfsVnopReadlink w r link = .ok (fmtInt r.currentPid.toInt) := by
  have hlen := length_fmtInt_int r.currentPid
  have hsize : processNameSize = 40 := rfl
  simp only [procfsVnopReadlink, htype, if_true]
  rw [target_whole hroom (by omega)]

theorem readlink_byname (w : World) {r : LinkReader} {link : Pfsnode}
    (hroom : processNameSize ≤ r.room)
    (htype : link.nodeStructureNode.psnNodeType = .procnamedir) :
    procfsVnopReadlink w r link = .ok (cstr "../" ++ fmtInt link.nodeId.nodeidPid.toInt) := by
  have hlen : (cstr "../" ++ fmtInt link.nodeId.nodeidPid.toInt).length ≤ 14 := by
    rw [List.length_append]
    exact Nat.add_le_add (Nat.le_refl 3) (length_fmtInt_int link.nodeId.nodeidPid)
  have hsize : processNameSize = 40 := rfl
  simp only [procfsVnopReadlink, htype, reduceCtorEq, if_true, if_false]
  rw [target_whole hroom (by omega)]

/-- `..` leads from a directory of the root to the root. -/
theorem lookup_up_root (htree : w.tree = procfsStructureInit build next)
    (hvdir : dir.vnodeVtype = .VDIR)
    (hsysctl : dir.nodeStructureNode.psnNodeType ≠ .sysctl)
    (hparent : dir.nodeStructureNode.psnParent = some 0) {table : List Pfsnode} {root : Pfsnode}
    (hroot : table.find?
      (fun pnp => pnp.nodeMntId = c.pmp.pmntId ∧ pnp.nodeId = procfsRootNodeId) = some root)
    (env : VnodeEnv) :
    procfsVnopLookup w c table dir (cstr "..") env = (.ok root, table) := by
  have hup : w.tree.parent dir.nodeStructureNode =
      some ⟨build, 0, .root, cstr "/", procfsRootNodeBaseId, 0, none⟩ := by
    rw [SnodeTree.parent, hparent, Option.bind_some, rootSnode_eq htree]
  have hid : dotDotId w dir = procfsRootNodeId := by
    simp only [dotDotId, hsysctl, false_and, if_false, procfsGetParentNodeId, hup,
      Option.getD_some]
    rfl
  rw [procfsVnopLookup_dotDot hvdir, hid, hroot]
  rfl

end

/-- A link to a process that was once found in a directory leads from there to the directory of that
process, for every caller who may see the process, and for everyone else to nothing; and whoever
finds a link in `byname` under the name of a process may see it. -/
theorem link_leads_to_process {w₀ w : World} {cred₀ : Cred} {c : Caller} {build : ℕ}
    {next : UInt16} {dir link : Pfsnode} {table₀ table : List Pfsnode} {env₀ env : VnodeEnv}
    {name target : CString} {r : LinkReader}
    (htree : w.tree = procfsStructureInit build next) (hsame : w₀.tree = w.tree)
    (hreach : Reach w.tree c.pmp dir) (htable₀ : TableReached w.tree c.pmp table₀)
    (hdots : name ≠ cstr "." ∧ name ≠ cstr "..")
    (hlookup : (procfsVnopLookup w₀ ⟨cred₀, c.pmp⟩ table₀ dir name env₀).1 = .ok link)
    (htype : link.nodeStructureNode.psnNodeType = .curproc ∨
      link.nodeStructureNode.psnNodeType = .procnamedir)
    (hroom : processNameSize ≤ r.room) (hread : procfsVnopReadlink w r link = .ok target)
    (htable : TableReached w.tree c.pmp table) (hroot : RootHeld w c table)
    (hmalloc : env.osMalloc = true) (hcreate : env.vnodeCreate = none) :
    FindsProcess w c (linkedPid r link) (walkPath w c env (components target) dir table).1 ∧
      (link.nodeStructureNode.psnNodeType = .procnamedir →
        link.nodeId.nodeidPid = prnodeNoPid ∨
          MaySee w₀ ⟨cred₀, c.pmp⟩ link.nodeId.nodeidPid) := by
  have hdir := (hreach.placed htree).1
  have hlink : procfsAllocvp link.nodeStructureNode.psnNodeType = .VLNK := by
    rcases htype with h | h <;> rw [h] <;> rfl
  rcases link_matched (c := ⟨cred₀, c.pmp⟩) (hsame.trans htree) (hsame ▸ hreach) (hsame ▸ htable₀)
    hdots hlookup hlink with ⟨hchild, hmatch⟩
  rw [hsame] at hchild
  have hmem : link.nodeStructureNode ∈ (procfsStructureInit build next).nodes := by
    rw [← htree]
    exact List.mem_of_mem_filter hchild
  have hsysctl := (layoutOk_of_mem htree hdir.mem).ne_sysctl hchild
  have hvdir := (procfsVnopLookup_ok hlookup).1
  constructor
  · rcases htype with htype | htype
    · -- the directory is the root, where the number is looked up
      have hrootdir := eq_root_of_child htree hdir.mem hchild ((link_place hmem).1 htype)
      rw [readlink_curproc w hroom htype] at hread
      cases hread
      rw [components_number, walkPath_singleton, linkedPid, if_pos htype]
      exact lookup_root_number htree hreach hrootdir htable hmalloc hcreate r.currentPid
    · -- the directory is `byname`, and `..` leads to the root
      rcases hroot with ⟨root, hisroot, hfind⟩
      rcases (link_place hmem).2 htype with ⟨a, hparent, hup⟩
      have haddr : a = dir.nodeStructureNode.psnAddr := by
        have hpsn := beq_iff_eq.mp (List.mem_filter.mp hchild).2
        rw [hparent] at hpsn
        exact Option.some.inj hpsn
      have hbyname := hup dir.nodeStructureNode (htree ▸ hdir.mem) haddr.symm
      have hrootsnode := hisroot.snode_eq
      rw [htree, procfsStructureRootNode_eq, Option.some.injEq] at hrootsnode
      have hne : link.nodeStructureNode.psnNodeType ≠ .curproc := by simp [htype]
      rw [readlink_byname w hroom htype] at hread
      cases hread
      rw [components_up_number, walkPath, lookup_up_root htree hvdir hsysctl hbyname hfind]
      simp only [walkPath_singleton, linkedPid, if_neg hne]
      exact lookup_root_number htree (Reach.root w c.cred rfl hisroot) hrootsnode.symm htable
        hmalloc hcreate link.nodeId.nodeidPid
  · intro htype
    have hsite := (layoutOk_of_mem htree hdir.mem).site _ hchild
    have hnopid : dir.nodeId.nodeidPid = prnodeNoPid :=
      hdir.pid_eq (hdir.allocvp_of_vdir hvdir) (hsite.proc_flags (Or.inr htype)).2.1
    rw [lookupMatch, if_neg hsysctl] at hmatch
    rcases (lookupLoop_accepts hmatch).2.2.seen with hpid | hsee
    · exact Or.inl (hpid.trans hnopid)
    · exact Or.inr hsee

def shByname : Pfsnode := ⟨1, ⟨-1, 0, 4⟩, ⟨0, 3, .dir, cstr "byname", 4, 0, some 0⟩, 0, .VDIR⟩

/-- The link in it to the shell. -/
def shLink : Pfsnode :=
  ⟨1, ⟨7, 0, 111⟩, ⟨0, 110, .procnamedir, cstr "__Process_N__", 111, psnFlagProcess, some 3⟩,
    0, .VLNK⟩

theorem reach_shByname : Reach shWorld.tree (userCaller 501).pmp shByname :=
  Reach.lookup shWorld ⟨501, 12⟩ [] (cstr "byname") ⟨true, none, none⟩ rfl reach_shRoot
    (tableReached_nil _ _) (by decide +kernel)

/-- The link that the owner of the shell found leads the owner to the shell, and a stranger to
nothing. -/
theorem link_leads_to_shell :
    (∃ pnp, (walkPath shWorld (userCaller 501) ⟨true, none, none⟩ (components (cstr "../7"))
        shByname [shRoot]).1 = .ok pnp ∧ pnp.nodeStructureNode.psnNodeType = .proc ∧
        pnp.nodeId.nodeidPid = 7) ∧
      (walkPath shWorld (userCaller 502) ⟨true, none, none⟩ (components (cstr "../7"))
        shByname [shRoot]).1 = .error .ENOENT := by
  let r : LinkReader := ⟨9, fun _ => ⟨none, none, none⟩, 1024⟩
  have hempty := tableReached_nil shWorld.tree (userCaller 501).pmp
  have htable := tableReached_singleton reach_shRoot
  have hlookup : (procfsVnopLookup shWorld (userCaller 501) [] shByname (cstr "7 sh")
      ⟨true, none, none⟩).1 = .ok shLink := by decide +kernel
  have hread : procfsVnopReadlink shWorld r shLink = .ok (cstr "../7") :=
    readlink_byname shWorld (by decide) rfl
  have hsee : MaySee shWorld (userCaller 501) 7 := ⟨shProc, rfl, Or.inr (Or.inr rfl)⟩
  have hstranger : ¬ MaySee shWorld (userCaller 502) 7 := by
    rintro ⟨p, hlive, haccess⟩
    obtain rfl : shProc = p := Option.some.inj hlive
    revert haccess
    decide
  exact ⟨(link_leads_to_process (c := userCaller 501) rfl rfl reach_shByname hempty (by decide)
      hlookup (Or.inr rfl) (by decide) hread htable ⟨shRoot, isRoot_shRoot, rfl⟩ rfl rfl).1.found
        hsee,
    (link_leads_to_process (c := userCaller 502) rfl rfl reach_shByname hempty (by decide)
      hlookup (Or.inr rfl) (by decide) hread htable
      ⟨shRoot, ⟨rfl, rfl, procfsStructureRootNode_eq 0 2, rfl⟩, rfl⟩ rfl rfl).1.absent hstranger⟩

end ProcFS
