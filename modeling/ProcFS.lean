import ProcFS.Accepted
import ProcFS.CopyData
import ProcFS.Ctl.Connection
import ProcFS.Cycles
import ProcFS.Data.Cmdline
import ProcFS.Data.Regions
import ProcFS.Data.Symtab
import ProcFS.Data.UnixSockets
import ProcFS.DirentTypes
import ProcFS.Eof
import ProcFS.FileIds
import ProcFS.Mount
import ProcFS.NodeTable.Ownership
import ProcFS.NonInterference
import ProcFS.Transfer.Readers
import ProcFS.MountNames
import ProcFS.Dots
import ProcFS.Offsets
import ProcFS.NodeSize
import ProcFS.Data.Sections
import ProcFS.Data.PageText
import ProcFS.Data.Pagemap
import ProcFS.Data.PagemapReads
import ProcFS.Data.Rtc
import ProcFS.Data.Smaps
import ProcFS.SysctlName
import ProcFS.Data.Note
import ProcFS.Data.Route
import ProcFS.Data.Devices
import ProcFS.Data.Misc
import ProcFS.Data.Wchan
import ProcFS.Lib.Bounded
import ProcFS.Data.Macho
import ProcFS.Data.MachoText
import ProcFS.VersionOrder
import ProcFS.Daemon
import ProcFS.StructureHeap.Build
import ProcFS.Data.TextLines
import ProcFS.ProcRefs.Values
import ProcFS.Served.Listing
import ProcFS.Served.Progress
import ProcFS.Lifecycle
import ProcFS.Data.MapsText
import ProcFS.Data.ProcText
import ProcFS.SysctlRead
import ProcFS.Data.Threads
import ProcFS.Links
import ProcFS.WchanProbe
import ProcFS.Pinned
import ProcFS.Data.Locks
import ProcFS.Data.Mounts
