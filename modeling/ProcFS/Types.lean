import Mathlib.Data.Finset.Basic
import Mathlib.Order.Basic

/-!
# ProcFS.Types — shared vocabulary of the kernel extension

The data types of `procfs.h` that every other module reads: error codes,
the node types and what they classify as, node identifiers, credentials and
the per-mount record. Fixed-width C integers keep their width (`Int32` for
`int`, `UInt64` for `uint64_t`, `UInt16` for `pfsbaseid_t`).
-/

namespace ProcFS

/-! ## C strings -/

/-- A C string: the bytes before the terminating NUL. -/
abbrev CString := List UInt8

/-- The C string of a source literal (all of them are ASCII). -/
def cstr (s : String) : CString := s.toList.map fun c => c.toNat.toUInt8

/-- `snprintf(buf, _, "%u", n)` for a natural number: its decimal digits. -/
def fmtNat (n : ℕ) : CString := (Nat.toDigits 10 n).map fun c => c.toNat.toUInt8

/-- `"%d"` and `"%lld"`: a minus sign, then the decimal digits. -/
def fmtInt (n : ℤ) : CString :=
  if n < 0 then cstr "-" ++ fmtNat n.natAbs else fmtNat n.natAbs

def isDigit (c : UInt8) : Bool := 48 ≤ c && c ≤ 57

/-- The digit loop `value = value * 10 + c - '0'` in wrapping `int`
arithmetic: the value, and the string from the first non-digit on. -/
def scanDigits (value : Int32) : CString → Int32 × CString
  | [] => (value, [])
  | c :: cs =>
    if isDigit c then scanDigits (value * 10 + (Int32.ofNat c.toNat - 48)) cs
    else (value, c :: cs)

/-! ## Error codes -/

/-- The `errno` values the file system itself returns; `other` is a code
passed through from the daemon or from the vnode layer. -/
inductive Errno where
  | EPERM
  | ENOENT
  | ESRCH
  | EIO
  | ENOMEM
  | EACCES
  | EFAULT
  | ENOTDIR
  | EINVAL
  | ENOTSUP
  | other (code : ℕ)
deriving DecidableEq, Repr

/-- The number of an error code. -/
def Errno.code : Errno → Int32
  | .EPERM => 1
  | .ENOENT => 2
  | .ESRCH => 3
  | Errno.EIO => 5
  | .ENOMEM => 12
  | .EACCES => 13
  | .EFAULT => 14
  | .ENOTDIR => 20
  | .EINVAL => 22
  | .ENOTSUP => 45
  | .other code => Int32.ofNat code

/-! ## Node types -/

/-- `pfstype`: the different types of node in a procfs file system. -/
inductive PfsType where
  | root | proc | thread | dir | file | dirthis | dirparent | curproc
  | procnamedir | fd | cpuinfo | loadavg | partitions | version | meminfo
  | mtab | stat | vmstat | uptime | swaps | filesystems | proclink | sysctl
  | extensions | modules | diskstats | devices | netdev | allocinfo | apm
  | bootconfig | buddyinfo | pcidevices | dma | rtc | execdomains | fb
  | nfsexports | interrupts | irq | tty | ioports | iomem | softirqs
  | kcmdline | ide | vmallocinfo | isapnp | scsi | sysvipc | pagetypeinfo
  | slabinfo | locks | kcore | kmsg | lastkmsg | ksyms | misc
deriving DecidableEq, Repr

inductive Vtype where
  | VREG
  | VDIR
  | VLNK
deriving DecidableEq, Repr

/-- The numeric value of `enum vtype`, which some `readdir` branches store in
`d_type`. -/
def Vtype.toNat : Vtype → ℕ
  | .VREG => 1
  | .VDIR => 2
  | .VLNK => 5

def dtDir : ℕ := 4

def dtReg : ℕ := 8

def dtLnk : ℕ := 10

/-- `procfs_allocvp`: the vnode type for a structure node type. -/
def procfsAllocvp : PfsType → Vtype
  | .root | .proc | .thread | .dir | .dirthis | .dirparent | .fd | .sysctl => .VDIR
  | .procnamedir | .curproc | .proclink => .VLNK
  | _ => .VREG

/-! ## Node identifiers -/

/-- `struct pfsid`: owning process, owning object and structure node. -/
@[ext] structure PfsId where
  nodeidPid : Int32
  nodeidObjectid : UInt64
  nodeidBaseId : UInt16
deriving DecidableEq, Repr

def prnodeNoPid : Int32 := -1

def prnodeNoObjectid : UInt64 := 0

def procfsRootNodeBaseId : UInt16 := 1

def procfsRootNodeId : PfsId where
  nodeidPid := prnodeNoPid
  nodeidObjectid := prnodeNoObjectid
  nodeidBaseId := procfsRootNodeBaseId

/-- `procfs_get_fileid`. The shift of `pid` is made in `int` and then widened;
the object id keeps only its low forty bits. -/
def procfsGetFileid (pid : Int32) (objectid : UInt64) (baseId : UInt16) : UInt64 :=
  let id := baseId.toUInt64
  let id := if pid ≠ prnodeNoPid then id ||| (pid <<< 8).toInt64.toUInt64 else id
  id ||| (objectid <<< 24)

/-! ## Mounts and credentials -/

/-- `PROCFS_MOPT_NOPROCPERMS`: do not apply process permissions. -/
def procfsMoptNoprocperms : Int32 := 1

/-- A VFS mount point (`struct mount *`). -/
abbrev MountPoint := ℕ

structure Timespec where
  tvSec : ℤ
  tvNsec : ℤ
deriving DecidableEq, Repr

/-- `struct pfsmount`, the per-mount data. -/
structure Pfsmount where
  pmntId : Int32
  pmntFlags : Int32
  pmntMp : MountPoint
  pmntMountTime : Timespec
deriving DecidableEq, Repr

def procfsShouldAccessCheck (pmp : Pfsmount) : Bool :=
  pmp.pmntFlags &&& procfsMoptNoprocperms == 0

/-- The parts of a credential that the access check reads: `cr_uid` and
`cr_groups[0]`. -/
structure Cred where
  crUid : ℕ
  crGid : ℕ
deriving DecidableEq, Repr

/-- `vfs_context_suser(ctx) == 0`: the caller is the superuser. -/
def vfsContextSuser (cred : Cred) : Bool := cred.crUid == 0

end ProcFS
