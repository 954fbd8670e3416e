import ProcFS.Types

/-!
# ProcFS.Structure — the file system layout

The layout is a tree of `pfssnode_t` objects, built once by
`procfs_structure_init` and the same for every mounted instance. Here the tree
is an arena: a node is a record that carries its own address (which building of
the tree allocated it, and its position there) and its parent's position, and
the children of a node are the nodes whose parent it is, in the order they were
added (`TAILQ_INSERT_TAIL`). All fields are set on creation and never change, so
a pointer to a node and the node itself are interchangeable.
-/

namespace ProcFS

/-! ## Structure nodes -/

/-- `struct pfssnode`: what lookup, readdir and the id functions read of it. -/
structure Pfssnode where
  psnBuild : ℕ
  psnAddr : ℕ
  psnNodeType : PfsType
  psnName : CString
  psnBaseNodeId : UInt16
  psnFlags : UInt16
  psnParent : Option ℕ
deriving DecidableEq, Repr

def psnFlagProcess : UInt16 := 1

def psnFlagThread : UInt16 := 2

/-- `MAX_STRUCT_NODE_NAME_LEN`: the terminating NUL is included. -/
def maxStructNodeNameLen : ℕ := 32

/-- The arena of structure nodes of one building of the tree, and the
`next_node_id` counter. -/
structure SnodeTree where
  build : ℕ
  nodes : List Pfssnode
  nextNodeId : UInt16
deriving DecidableEq, Repr

namespace SnodeTree

def node? (t : SnodeTree) (a : ℕ) : Option Pfssnode := t.nodes[a]?

/-- `psn_parent`. -/
def parent (t : SnodeTree) (s : Pfssnode) : Option Pfssnode := s.psnParent.bind t.node?

/-- `psn_children`, in list order. -/
def children (t : SnodeTree) (s : Pfssnode) : List Pfssnode :=
  t.nodes.filter fun c => c.psnParent == some s.psnAddr

end SnodeTree

/-! ## Building the tree -/

/-- `next_node_id++`, with the wraparound of `uint16_t`. -/
def nextNodeId : StateM SnodeTree UInt16 := fun t =>
  (t.nextNodeId, { t with nextNodeId := t.nextNodeId + 1 })

/-- The flags a new node inherits from its parent. -/
def inheritedFlags (t : SnodeTree) (parent : Option ℕ) : UInt16 :=
  match parent.bind t.node? with
  | some p => p.psnFlags &&& (psnFlagProcess ||| psnFlagThread)
  | none => 0

/-- `add_node`: appends a node to its parent's child list. A name that does not
fit is truncated by `strlcpy`. -/
def addNode (parent : Option ℕ) (name : String) (type : PfsType) (nodeId flags : UInt16) :
    StateM SnodeTree ℕ := fun t =>
  let a := t.nodes.length
  let node : Pfssnode :=
    { psnBuild := t.build
      psnAddr := a
      psnNodeType := type
      psnName := (cstr name).take (maxStructNodeNameLen - 1)
      psnBaseNodeId := nodeId
      psnFlags := flags ||| inheritedFlags t parent
      psnParent := parent }
  (a, { t with nodes := t.nodes ++ [node] })

/-- `add_directory`: the node itself, then its `.` and `..` entries. The source
adds those two by a recursive call with `raw` set, which is `add_node`. -/
def addDirectory (parent : Option ℕ) (name : String) (type : PfsType)
    (nodeId flags : UInt16) : StateM SnodeTree ℕ := do
  let snode ← addNode parent name type nodeId flags
  let dotFlags := flags &&& (psnFlagProcess ||| psnFlagThread)
  let _ ← addNode snode "." .dirthis (← nextNodeId) dotFlags
  let _ ← addNode snode ".." .dirparent (← nextNodeId) dotFlags
  return snode

def addFile (parent : Option ℕ) (name : String) (nodeId flags : UInt16) :
    StateM SnodeTree ℕ :=
  addNode parent name .file nodeId flags

/-- A run of `add_node` calls with one parent and the same flags, each with the
next node id. -/
def addNodes (parent : ℕ) (flags : UInt16) : List (String × PfsType) → StateM SnodeTree Unit
  | [] => return
  | (name, type) :: rest => do
    let _ ← addNode parent name type (← nextNodeId) flags
    addNodes parent flags rest

/-- A run of `add_file` calls with one parent and the same flags. -/
def addFiles (parent : ℕ) (flags : UInt16) : List String → StateM SnodeTree Unit
  | [] => return
  | name :: rest => do
    let _ ← addFile parent name (← nextNodeId) flags
    addFiles parent flags rest

/-! `procfs_structure_init` on a first mount, call by call and in the order of
the source, cut into the blocks its comments mark. -/

def addRootFiles (rootNode : ℕ) : StateM SnodeTree Unit :=
  addNodes rootNode 0
    [("cpuinfo", .cpuinfo), ("curproc", .curproc), ("loadavg", .loadavg), ("kcore", .kcore),
     ("kmsg", .kmsg), ("last_kmsg", .lastkmsg), ("ksyms", .ksyms), ("kallsyms", .ksyms),
     ("locks", .locks), ("meminfo", .meminfo), ("misc", .misc), ("mtab", .mtab),
     ("mounts", .mtab), ("stat", .stat), ("vmstat", .vmstat), ("partitions", .partitions),
     ("version", .version), ("uptime", .uptime), ("swaps", .swaps), ("filesystems", .filesystems),
     ("sys", .sysctl), ("extensions", .extensions), ("modules", .modules),
     ("diskstats", .diskstats), ("devices", .devices), ("allocinfo", .allocinfo),
     ("vmallocinfo", .vmallocinfo), ("apm", .apm), ("bootconfig", .bootconfig),
     ("buddyinfo", .buddyinfo), ("pagetypeinfo", .pagetypeinfo), ("slabinfo", .slabinfo),
     ("dma", .dma), ("ioports", .ioports), ("iomem", .iomem), ("softirqs", .softirqs),
     ("rtc", .rtc), ("execdomains", .execdomains), ("fb", .fb), ("interrupts", .interrupts)]

/-- The static subdirectories of the root, and the two root nodes added among them. -/
def addRootDirectories (rootNode : ℕ) : StateM SnodeTree Unit := do
  let irqDir ← addDirectory rootNode "irq" .dir (← nextNodeId) 0
  let _ ← addNode irqDir "default_smp_affinity" .irq (← nextNodeId) 0
  let _ ← addNode irqDir "default_smp_affinity_list" .irq (← nextNodeId) 0
  let ttyDir ← addDirectory rootNode "tty" .dir (← nextNodeId) 0
  let _ ← addNode ttyDir "drivers" .tty (← nextNodeId) 0
  let _ ← addNode ttyDir "ldiscs" .tty (← nextNodeId) 0
  let ideDir ← addDirectory rootNode "ide" .dir (← nextNodeId) 0
  let _ ← addNode ideDir "drivers" .ide (← nextNodeId) 0
  let videoDir ← addDirectory rootNode "video" .dir (← nextNodeId) 0
  let _ ← addDirectory videoDir "bttv" .dir (← nextNodeId) 0
  let _ ← addNode rootNode "isapnp" .isapnp (← nextNodeId) 0
  let scsiDir ← addDirectory rootNode "scsi" .dir (← nextNodeId) 0
  let _ ← addNode scsiDir "scsi" .scsi (← nextNodeId) 0
  let sysvipcDir ← addDirectory rootNode "sysvipc" .dir (← nextNodeId) 0
  let _ ← addNode sysvipcDir "msg" .sysvipc (← nextNodeId) 0
  let _ ← addNode sysvipcDir "sem" .sysvipc (← nextNodeId) 0
  let _ ← addNode sysvipcDir "shm" .sysvipc (← nextNodeId) 0
  let fsDir ← addDirectory rootNode "fs" .dir (← nextNodeId) 0
  let nfsDir ← addDirectory fsDir "nfs" .dir (← nextNodeId) 0
  let _ ← addNode nfsDir "exports" .nfsexports (← nextNodeId) 0
  let driverDir ← addDirectory rootNode "driver" .dir (← nextNodeId) 0
  let _ ← addNode driverDir "rtc" .rtc (← nextNodeId) 0
  let busDir ← addDirectory rootNode "bus" .dir (← nextNodeId) 0
  let pciDir ← addDirectory busDir "pci" .dir (← nextNodeId) 0
  let _ ← addNode pciDir "devices" .pcidevices (← nextNodeId) 0
  let _ ← addNode rootNode "cmdline" .kcmdline (← nextNodeId) 0
  let _ ← addNode rootNode "self" .curproc (← nextNodeId) 0

def addNetDirectory (rootNode : ℕ) : StateM SnodeTree Unit := do
  let netDir ← addDirectory rootNode "net" .dir (← nextNodeId) 0
  addNodes netDir 0
    [("dev", .netdev), ("tcp", .netdev), ("tcp6", .netdev), ("udp", .netdev), ("udp6", .netdev),
     ("unix", .netdev), ("route", .netdev), ("arp", .netdev), ("netstat", .netdev),
     ("snmp", .netdev)]

def addProcessFiles (oneProcDir : ℕ) : StateM SnodeTree Unit := do
  addFiles oneProcDir psnFlagProcess
    ["cmdline", "pid", "ppid", "pgid", "sid", "tty", "status", "taskinfo", "note", "clear_refs",
     "limit", "mem", "map", "maps", "smaps", "smaps_rollup", "numa_maps", "pagemap"]
  addNodes oneProcDir psnFlagProcess [("exe", .proclink), ("cwd", .proclink), ("root", .proclink)]
  addFiles oneProcDir psnFlagProcess
    ["comm", "cpu", "stat", "statm", "io", "environ", "regs", "fpregs", "auxv", "wchan", "stack"]

/-- The per-thread and per-descriptor files. -/
def addObjectFiles (oneThreadDir oneTaskDir oneFdDir : ℕ) : StateM SnodeTree Unit := do
  addFiles oneThreadDir (psnFlagProcess ||| psnFlagThread) ["info"]
  addFiles oneTaskDir (psnFlagProcess ||| psnFlagThread)
    ["info", "comm", "stat", "status", "sched", "maps"]
  addFiles oneFdDir psnFlagProcess ["details", "socket"]

/-- The calls of `procfs_structure_init`. -/
def procfsStructureInitCalls : StateM SnodeTree Unit := do
  let rootNode ← addDirectory none "/" .root procfsRootNodeBaseId 0
  let procByNameDir ← addDirectory rootNode "byname" .dir (← nextNodeId) 0
  addRootFiles rootNode
  addRootDirectories rootNode
  addNetDirectory rootNode
  -- the pseudo-entries below are replaced by the visible processes, the open
  -- files and the threads; each is the last child of its parent
  let _ ← addDirectory procByNameDir "__Process_N__" .procnamedir (← nextNodeId) psnFlagProcess
  let oneProcDir ← addDirectory rootNode "__Process__" .proc (← nextNodeId) psnFlagProcess
  let fdDir ← addDirectory oneProcDir "fd" .dir (← nextNodeId) psnFlagProcess
  let oneFdDir ← addDirectory fdDir "__File__" .fd (← nextNodeId) psnFlagProcess
  let threadsDir ← addDirectory oneProcDir "threads" .dir (← nextNodeId) psnFlagProcess
  let oneThreadDir ← addDirectory threadsDir "__Thread__" .thread (← nextNodeId)
    (psnFlagProcess ||| psnFlagThread)
  let taskDir ← addDirectory oneProcDir "task" .dir (← nextNodeId) psnFlagProcess
  let oneTaskDir ← addDirectory taskDir "__Thread__" .thread (← nextNodeId)
    (psnFlagProcess ||| psnFlagThread)
  addProcessFiles oneProcDir
  addObjectFiles oneThreadDir oneTaskDir oneFdDir

/-- The tree that a first mount builds when `build` trees were built before and
`next_node_id` stands at `next`. -/
@[irreducible] def procfsStructureInit (build : ℕ) (next : UInt16) : SnodeTree :=
  (procfsStructureInitCalls.run { build := build, nodes := [], nextNodeId := next }).2

/-- `procfs_structure_root_node`: the root is the first node added. -/
def procfsStructureRootNode (t : SnodeTree) : Option Pfssnode := t.node? 0

end ProcFS
