import ProcFS.Data.Cmdline

/-!
# ProcFS.Data.Sections — the sections of an argument region

`procfs_read_procargs` looks for three sections in whatever the daemon returned. What it
finds is described here for bytes of any kind: a region that was cut off, that has no
NULs, or whose count is too large. `environ` and the native `auxv` serve the second and
the third section. Nothing in the region says where the third one begins: the code looks
for the first string with the name of its first entry, and an environment may have a
variable of that name.

* `skipStrings_span`: what the loop over the arguments passes over.
* `readProcargs_divides`: whatever the bytes are, they are divided.
* `spans_right_iff`: when the parts of a whole region are the right ones.
* `environ_auxv_serve_iff`: when `environ` and `auxv` serve what they should.
-/

namespace ProcFS.Data

open Ctl (Result)
open Lib (leNat leBytes terminated untilNul)
open Transfer (Allocator procfsFetchProcargs procfsdHandleProcargs)

/-! ## What is found -/

/-- The string at a position, without its NUL. -/
def stringAt (buf : List UInt8) (pos : ℕ) : CString := untilNul (buf.drop pos)

/-- A string starts at `pos`: the first one of a section from `start` on, or one behind a
NUL of it. -/
structure StringStart (buf : List UInt8) (start pos : ℕ) : Prop where
  start_le : start ≤ pos
  lt_length : pos < buf.length
  behind : pos = start ∨ start < pos ∧ buf[pos - 1]? = some 0

/-- `[argv_off, env_off)` is made of `args`, each with its NUL, and of `last`, which has none
and is empty unless the region ends there. -/
structure ArgvSpan (buf : List UInt8) (argc argvOff envOff : ℕ) (args : List CString)
    (last : CString) : Prop where
  span : (buf.drop argvOff).take (envOff - argvOff) = args.flatMap terminated ++ last
  args_nul : ∀ s ∈ args, 0 ∉ s
  last_nul : 0 ∉ last
  count_le : args.length ≤ argc
  last_counts : last ≠ [] → args.length < argc
  exhausted : args.length < argc ∨ last ≠ [] → envOff = buf.length

/-- The three offsets divide what was read into sections. -/
structure Divides (argc : ℕ) (a : Procargs) : Prop where
  argv_le : a.argvOff ≤ a.envOff
  env_le : a.envOff ≤ a.appleOff
  apple_le : a.appleOff ≤ a.buf.length
  argv : ∃ args last, ArgvSpan a.buf argc a.argvOff a.envOff args last
  env : ∀ pos, StringStart a.buf a.envOff pos → pos < a.appleOff →
    ¬ procfsExecKey <+: stringAt a.buf pos
  apple : a.appleOff = a.buf.length ∨
    StringStart a.buf a.envOff a.appleOff ∧ procfsExecKey <+: stringAt a.buf a.appleOff

/-! ## One string -/

section OneString

variable {buf : List UInt8} {pos : ℕ}

theorem length_stringAt (buf : List UInt8) (pos : ℕ) :
    (stringAt buf pos).length = strnlen buf pos :=
  rfl

theorem stringAt_isPrefix (buf : List UInt8) (pos : ℕ) : stringAt buf pos <+: buf.drop pos :=
  List.takeWhile_prefix _

theorem strnlen_le (buf : List UInt8) (pos : ℕ) : strnlen buf pos ≤ buf.length - pos := by
  rw [← List.length_drop]
  exact (stringAt_isPrefix buf pos).length_le

/-- A string that ends before the region does has a NUL. -/
theorem drop_of_strnlen_lt (h : strnlen buf pos < buf.length - pos) :
    buf.drop pos = terminated (stringAt buf pos) ++ buf.drop (pos + strnlen buf pos + 1) := by
  rcases Lib.untilNul_cases (buf.drop pos) with ⟨-, hwhole⟩ | ⟨rest, hrest⟩
  · rw [strnlen, hwhole, List.length_drop] at h
    omega
  · have hskip : buf.drop (pos + strnlen buf pos + 1) = rest := drop_behind_string hrest
    rw [hskip]
    exact hrest

/-- One that does not is all that is left. -/
theorem stringAt_of_strnlen_eq (h : ¬ strnlen buf pos < buf.length - pos) :
    stringAt buf pos = buf.drop pos := by
  apply (stringAt_isPrefix buf pos).eq_of_length_le
  rw [length_stringAt, List.length_drop]
  omega

/-- A NUL is not inside the string. -/
theorem strnlen_le_of_nul {i : ℕ} (h : buf[pos + i]? = some 0) : strnlen buf pos ≤ i := by
  by_contra hlt
  rw [Nat.not_le, ← length_stringAt] at hlt
  obtain ⟨rest, hrest⟩ := stringAt_isPrefix buf pos
  have hget : (stringAt buf pos ++ rest)[i]? = (stringAt buf pos)[i]? :=
    List.getElem?_append_left hlt
  rw [hrest, List.getElem?_drop, h] at hget
  exact Lib.zero_notMem_untilNul _ (List.mem_of_getElem? hget.symm)

end OneString

/-! ## The arguments -/

variable {buf : List UInt8} {pos : ℕ} {a : Procargs}

/-- The loop over the arguments moves within the region. -/
theorem skipStrings_bounds (left : ℕ) (hpos : pos ≤ buf.length) :
    pos ≤ skipStrings buf left pos ∧ skipStrings buf left pos ≤ buf.length := by
  induction left generalizing pos with
  | zero => exact ⟨Nat.le_refl pos, hpos⟩
  | succ left ih =>
    rw [skipStrings]
    have hlen := strnlen_le buf pos
    split
    · simp only
      split
      · have hrest := @ih (pos + (strnlen buf pos + 1)) (by omega)
        exact ⟨by omega, hrest.2⟩
      · have hrest := @ih (pos + strnlen buf pos) (by omega)
        exact ⟨by omega, hrest.2⟩
    · exact ⟨Nat.le_refl pos, hpos⟩

/-- At the end of the region the loop stops. -/
theorem skipStrings_end (buf : List UInt8) (left : ℕ) :
    skipStrings buf left buf.length = buf.length := by
  cases left with
  | zero => rfl
  | succ left => rw [skipStrings, if_neg (Nat.lt_irrefl _)]

/-- No argument is left to pass over. -/
theorem ArgvSpan.nil (buf : List UInt8) (argc pos : ℕ) (h : 0 < argc → pos = buf.length) :
    ArgvSpan buf argc pos pos [] [] where
  span := by simp
  args_nul := by simp
  last_nul := by simp
  count_le := Nat.zero_le argc
  last_counts := fun hne => absurd rfl hne
  exhausted := fun hmore => h (hmore.resolve_right (fun hne => hne rfl))

/-- One more argument in front. -/
theorem ArgvSpan.cons {argc pos envOff : ℕ} {args : List CString} {last : CString}
    (hterm : strnlen buf pos < buf.length - pos) (hle : pos + strnlen buf pos + 1 ≤ envOff)
    (h : ArgvSpan buf argc (pos + strnlen buf pos + 1) envOff args last) :
    ArgvSpan buf (argc + 1) pos envOff (stringAt buf pos :: args) last where
  span := by
    have hlen : (terminated (stringAt buf pos)).length = strnlen buf pos + 1 :=
      Lib.length_terminated _
    have hcount : envOff - pos =
        (terminated (stringAt buf pos)).length + (envOff - (pos + strnlen buf pos + 1)) := by
      omega
    rw [drop_of_strnlen_lt hterm, hcount, List.take_length_add_append, h.span, List.flatMap_cons,
      List.append_assoc]
  args_nul := by
    intro s hs
    rcases List.mem_cons.mp hs with rfl | hs
    · exact Lib.zero_notMem_untilNul _
    · exact h.args_nul s hs
  last_nul := h.last_nul
  count_le := Nat.succ_le_succ h.count_le
  last_counts := fun hne => Nat.succ_lt_succ (h.last_counts hne)
  exhausted := fun hmore => h.exhausted (hmore.imp_left Nat.lt_of_succ_lt_succ)

/-- The last argument, without a NUL. -/
theorem ArgvSpan.unterminated (argc : ℕ) (hterm : ¬ strnlen buf pos < buf.length - pos) :
    ArgvSpan buf (argc + 1) pos buf.length [] (stringAt buf pos) where
  span := by
    rw [stringAt_of_strnlen_eq hterm, ← List.length_drop, List.take_length]
    rfl
  args_nul := by simp
  last_nul := Lib.zero_notMem_untilNul _
  count_le := Nat.zero_le _
  last_counts := fun _ => Nat.succ_pos argc
  exhausted := fun _ => rfl

/-- What the loop over the arguments passes over. -/
theorem skipStrings_span (left : ℕ) (hpos : pos ≤ buf.length) :
    ∃ args last, ArgvSpan buf left pos (skipStrings buf left pos) args last := by
  induction left generalizing pos with
  | zero => exact ⟨[], [], ArgvSpan.nil buf 0 pos (fun h => absurd h (Nat.lt_irrefl 0))⟩
  | succ left ih =>
    rw [skipStrings]
    have hlen := strnlen_le buf pos
    by_cases hin : pos < buf.length
    · simp only [if_pos hin]
      by_cases hterm : strnlen buf pos < buf.length - pos
      · rw [if_pos hterm]
        have hnext : pos + (strnlen buf pos + 1) ≤ buf.length := by omega
        obtain ⟨args, last, hspan⟩ := ih hnext
        exact ⟨stringAt buf pos :: args, last, hspan.cons hterm (skipStrings_bounds left hnext).1⟩
      · have hend : pos + strnlen buf pos = buf.length := by omega
        rw [if_neg hterm, hend, skipStrings_end]
        exact ⟨[], stringAt buf pos, ArgvSpan.unterminated left hterm⟩
    · rw [if_neg hin]
      exact ⟨[], [], ArgvSpan.nil buf (left + 1) pos (fun _ => by omega)⟩

/-! ## The boundary of the environment -/

theorem execKey_nul : 0 ∉ procfsExecKey := by decide

/-- The comparison at `scan` in the code. -/
theorem memcmp_key_iff (buf : List UInt8) (scan : ℕ) :
    (procfsExecKey.length ≤ buf.length - scan ∧
        (buf.drop scan).take procfsExecKey.length = procfsExecKey) ↔
      procfsExecKey <+: stringAt buf scan := by
  rw [stringAt, Lib.prefix_untilNul_iff execKey_nul, List.prefix_iff_eq_take, ← List.length_drop]
  constructor
  · rintro ⟨-, heq⟩
    exact heq.symm
  · intro heq
    refine ⟨?_, heq.symm⟩
    rw [heq, List.length_take]
    exact Nat.min_le_right _ _

/-- A string behind the first one of a section starts behind the NUL of that one. -/
theorem StringStart.next {scan pos : ℕ} (h : StringStart buf scan pos) (hne : pos ≠ scan) :
    strnlen buf scan < buf.length - scan ∧ StringStart buf (scan + strnlen buf scan + 1) pos := by
  obtain ⟨hlt, hnul⟩ := h.behind.resolve_left hne
  have hle : strnlen buf scan ≤ pos - 1 - scan :=
    strnlen_le_of_nul (by rw [show scan + (pos - 1 - scan) = pos - 1 by omega]; exact hnul)
  have hpos := h.lt_length
  refine ⟨by omega, by omega, hpos, ?_⟩
  by_cases heq : pos = scan + strnlen buf scan + 1
  · exact Or.inl heq
  · exact Or.inr ⟨by omega, hnul⟩

/-- Conversely, what starts behind that NUL starts in the section. -/
theorem StringStart.of_next {scan pos : ℕ} (hterm : strnlen buf scan < buf.length - scan)
    (h : StringStart buf (scan + strnlen buf scan + 1) pos) : StringStart buf scan pos := by
  have hle := h.start_le
  refine ⟨by omega, h.lt_length, Or.inr ⟨by omega, ?_⟩⟩
  rcases h.behind with heq | ⟨-, hnul⟩
  · have hbyte : (buf.drop scan)[strnlen buf scan]? = some 0 := by
      rw [drop_of_strnlen_lt hterm, terminated, List.append_assoc, List.singleton_append,
        ← length_stringAt, List.getElem?_append_right (Nat.le_refl _), Nat.sub_self,
        List.getElem?_cons_zero]
    rw [List.getElem?_drop] at hbyte
    rw [heq, Nat.add_sub_cancel]
    exact hbyte
  · exact hnul

/-- What the search for the boundary comes to: the first string that begins with the key,
or the end of the region. -/
structure Boundary (buf : List UInt8) (scan found : ℕ) : Prop where
  le : scan ≤ found
  le_length : found ≤ buf.length
  before : ∀ pos, StringStart buf scan pos → pos < found → ¬ procfsExecKey <+: stringAt buf pos
  at_found : found = buf.length ∨
    StringStart buf scan found ∧ procfsExecKey <+: stringAt buf found

theorem scanApple_boundary {scan : ℕ} (hscan : scan ≤ buf.length) :
    Boundary buf scan (scanApple buf scan) := by
  fun_induction scanApple buf scan with
  | case1 scan hin remaining hkey =>
    refine ⟨Nat.le_refl scan, hscan, ?_, ?_⟩
    · intro pos hstart hlt
      exact absurd hstart.start_le (by omega)
    · exact Or.inr ⟨⟨Nat.le_refl scan, hin, Or.inl rfl⟩, (memcmp_key_iff buf scan).mp hkey⟩
  | case2 scan hin remaining hkey slen hlast =>
    refine ⟨hscan, Nat.le_refl _, ?_, Or.inl rfl⟩
    intro pos hstart hlt
    by_cases heq : pos = scan
    · rw [heq, ← memcmp_key_iff]
      exact hkey
    · -- no other string starts here
      have hterm := (hstart.next heq).1
      omega
  | case3 scan hin remaining hkey slen hmore ih =>
    have hlen : slen ≤ remaining := strnlen_le buf scan
    have hterm : slen < remaining := by omega
    have hrest := ih (by omega)
    refine ⟨by have := hrest.le; omega, hrest.le_length, ?_, ?_⟩
    · intro pos hstart hlt
      by_cases heq : pos = scan
      · rw [heq, ← memcmp_key_iff]
        exact hkey
      · exact hrest.before pos (hstart.next heq).2 hlt
    · exact hrest.at_found.imp_right fun h => ⟨h.1.of_next hterm, h.2⟩
  | case4 scan hin =>
    refine ⟨hscan, Nat.le_refl _, ?_, Or.inl rfl⟩
    intro pos hstart hlt
    have := hstart.start_le
    omega

/-! ## Any region -/

/-- `argc`, the first four bytes. -/
def leadingArgc (buf : List UInt8) : Int32 := Int32.ofNat (leNat (buf.take 4))

theorem skipPadding_le (hpos : pos ≤ buf.length) : skipPadding buf pos ≤ buf.length := by
  have hle := (List.takeWhile_prefix (l := buf.drop pos) fun b => b == 0).length_le
  rw [List.length_drop] at hle
  unfold skipPadding
  omega

def argvStart (buf : List UInt8) : ℕ :=
  if 4 + strnlen buf 4 < buf.length then skipPadding buf (4 + strnlen buf 4 + 1)
  else 4 + strnlen buf 4

def envStart (buf : List UInt8) : ℕ :=
  skipStrings buf (leadingArgc buf).toNatClampNeg (argvStart buf)

/-- The sections of a region with a positive count. -/
theorem locateSections_of_argc (hlen : 4 ≤ buf.length) (hargc : 0 < leadingArgc buf) :
    locateSections buf = .ok ⟨buf, argvStart buf, envStart buf, scanApple buf (envStart buf)⟩ := by
  rw [locateSections, if_neg (by omega)]
  exact if_neg (Int32.not_le.mpr hargc)

theorem argvStart_le (hlen : 4 ≤ buf.length) : argvStart buf ≤ buf.length := by
  have hpath := strnlen_le buf 4
  unfold argvStart
  split
  · exact skipPadding_le (by omega)
  · omega

/-- The bytes that were fetched are divided, whatever they are. -/
theorem locateSections_divides (hlen : 4 ≤ buf.length) (hargc : 0 < leadingArgc buf) :
    ∃ a, locateSections buf = .ok a ∧ a.buf = buf ∧ Divides (leadingArgc buf).toNatClampNeg a := by
  have hargv := argvStart_le hlen
  have henv := skipStrings_bounds (leadingArgc buf).toNatClampNeg hargv
  have happle := scanApple_boundary henv.2
  exact ⟨_, locateSections_of_argc hlen hargc, rfl, henv.1, happle.le, happle.le_length,
    skipStrings_span _ hargv, happle.before, happle.at_found⟩

/-- `procfs_read_procargs` comes to its end on every region with a positive count, and
divides it. -/
theorem readProcargs_divides {mem : Allocator} {request : ℕ → Result} {fuel : ℕ}
    {buf : List UInt8} (hfetch : procfsFetchProcargs mem request fuel = some (.ok buf))
    (hlen : 4 ≤ buf.length) (hargc : 0 < leadingArgc buf) :
    ∃ a, procfsReadProcargs mem request fuel = some (.ok a) ∧ a.buf = buf ∧
      Divides (leadingArgc buf).toNatClampNeg a := by
  obtain ⟨a, hlocate, hbuf, hdivides⟩ := locateSections_divides hlen hargc
  refine ⟨a, ?_, hbuf, hdivides⟩
  rw [procfsReadProcargs, hfetch, Option.map_some]
  exact congrArg some hlocate

/-- A region that says it has three arguments and ends within the first one. -/
def cutRegion : List UInt8 := leBytes 4 3 ++ terminated (cstr "/bin/sh") ++ cstr "sh"

theorem readProcargs_divides_cut :
    ∃ a, procfsReadProcargs Transfer.zeroed (procfsdHandleProcargs true (.ok cutRegion)) 129 =
        some (.ok a) ∧ a.buf = cutRegion ∧ Divides (leadingArgc cutRegion).toNatClampNeg a :=
  readProcargs_divides (Transfer.fetchProcargs_steady (fun _ => rfl) cutRegion (by decide))
    (by decide) (by decide)

/-! ## The nodes -/

/-- `[env_off, apple_off)`. -/
def Procargs.envSpan (a : Procargs) : CString := (a.buf.drop a.envOff).take (a.appleOff - a.envOff)

/-- `[apple_off, n)`. -/
def Procargs.appleSpan (a : Procargs) : CString := a.buf.drop a.appleOff

/-- What `procfs_doenviron` and `procfs_doauxv` have in common: a span of the region of a
live process, nothing if there is no region. -/
def serveSpan (span : Procargs → CString) (pt : ProcTable) (noStack : Proc → Bool)
    (mem : Allocator) (request : Int32 → ℕ → Result) (fuel : ℕ) (pnp : Pfsnode) :
    Option (Except Int32 CString) :=
  match pt.procFind pnp.nodeId.nodeidPid with
  | none => some (.error Errno.ESRCH.code)
  | some p =>
    if noStack p then some (.ok [])
    else (procfsReadProcargs mem (request p.pPid) fuel).map fun r =>
      match r with
      | .error _ => .ok []
      | .ok a => .ok (span a)

/-- `procfs_doenviron`: an error, or the text that the node serves. -/
def procfsDoenviron (pt : ProcTable) (noStack : Proc → Bool) (mem : Allocator)
    (request : Int32 → ℕ → Result) (fuel : ℕ) (rw : UioRw) (pnp : Pfsnode) :
    Option (Except Int32 CString) :=
  if rw ≠ .UIO_READ then some (.error eopnotsupp)
  else serveSpan Procargs.envSpan pt noStack mem request fuel pnp

/-- `procfs_doauxv`. In Linux mode the node is another one, `doauxvLinux`. -/
def procfsDoauxv (procfsLinuxMode : Bool) (doauxvLinux : Pfsnode → Option (Except Int32 CString))
    (pt : ProcTable) (noStack : Proc → Bool) (mem : Allocator) (request : Int32 → ℕ → Result)
    (fuel : ℕ) (rw : UioRw) (pnp : Pfsnode) : Option (Except Int32 CString) :=
  if rw ≠ .UIO_READ then some (.error eopnotsupp)
  else if procfsLinuxMode then doauxvLinux pnp
  else serveSpan Procargs.appleSpan pt noStack mem request fuel pnp

/-! ## A region that is cut off -/

section Cut

/-- Whether letters are passed over does not depend on what was cut off. -/
theorem length_takeWhile_take (p : UInt8 → Bool) (buf : List UInt8) (pos cap : ℕ) :
    (((buf.take cap).drop pos).takeWhile p).length =
      min ((buf.drop pos).takeWhile p).length (cap - pos) := by
  rw [List.drop_take, ← List.take_takeWhile, List.length_take, Nat.min_comm]

theorem strnlen_take (buf : List UInt8) (pos cap : ℕ) :
    strnlen (buf.take cap) pos = min (strnlen buf pos) (cap - pos) :=
  length_takeWhile_take _ buf pos cap

theorem skipPadding_take {pos cap : ℕ} (hpos : pos ≤ cap) :
    skipPadding (buf.take cap) pos = min (skipPadding buf pos) cap := by
  rw [skipPadding, length_takeWhile_take, skipPadding]
  omega

/-- The loop over the arguments stops where the region is cut off, or where it would have
stopped. -/
theorem skipStrings_take {cap : ℕ} (hcap : cap ≤ buf.length) (left : ℕ) (hpos : pos ≤ buf.length) :
    skipStrings (buf.take cap) left (min pos cap) = min (skipStrings buf left pos) cap := by
  have hlength : (buf.take cap).length = cap := by rw [List.length_take]; omega
  induction left generalizing pos with
  | zero => rfl
  | succ left ih =>
    by_cases hin : pos < cap
    · have hlen := strnlen_le buf pos
      have hnext : (pos + if min (strnlen buf pos) (cap - pos) < cap - pos then
            min (strnlen buf pos) (cap - pos) + 1 else min (strnlen buf pos) (cap - pos)) =
          min (pos + if strnlen buf pos < buf.length - pos then strnlen buf pos + 1
            else strnlen buf pos) cap := by
        split <;> split <;> omega
      rw [Nat.min_eq_left (Nat.le_of_lt hin), skipStrings, skipStrings, hlength, if_pos hin,
        if_pos (by omega), strnlen_take]
      simp only [hnext]
      exact ih (by split <;> omega)
    · have hstop := skipStrings_end (buf.take cap) (left + 1)
      rw [hlength] at hstop
      have hle := (skipStrings_bounds (left + 1) hpos).1
      rw [Nat.min_eq_right (by omega), hstop, Nat.min_eq_right (by omega)]

theorem argvStart_take {cap : ℕ} (hfour : 4 ≤ cap) (hcap : cap ≤ buf.length) :
    argvStart (buf.take cap) = min (argvStart buf) cap := by
  have hlength : (buf.take cap).length = cap := by rw [List.length_take]; omega
  have hpath := strnlen_take buf 4 cap
  have hge : 4 + strnlen buf 4 + 1 ≤ skipPadding buf (4 + strnlen buf 4 + 1) := Nat.le_add_right _ _
  rw [argvStart, argvStart, hlength, hpath]
  by_cases hin : 4 + strnlen buf 4 < cap
  · rw [Nat.min_eq_left (by omega), if_pos hin, if_pos (by omega), skipPadding_take (by omega)]
  · rw [Nat.min_eq_right (by omega), if_neg (by omega)]
    split <;> omega

theorem leadingArgc_take {cap : ℕ} (hfour : 4 ≤ cap) :
    leadingArgc (buf.take cap) = leadingArgc buf := by
  rw [leadingArgc, leadingArgc, List.take_take, Nat.min_eq_left hfour]

/-- The environment is taken to begin where it does, or where the region is cut off. -/
theorem envStart_take {cap : ℕ} (hfour : 4 ≤ cap) (hcap : cap ≤ buf.length) :
    envStart (buf.take cap) = min (envStart buf) cap := by
  rw [envStart, leadingArgc_take hfour, argvStart_take hfour hcap,
    skipStrings_take hcap _ (argvStart_le (by omega)), envStart]

end Cut

/-! ## The strings behind the arguments -/

def isKeyed (s : CString) : Bool := procfsExecKey.isPrefixOf s

theorem isKeyed_iff {s : CString} : isKeyed s = true ↔ procfsExecKey <+: s :=
  List.isPrefixOf_iff_prefix

/-- The search stops in front of the first string that begins with the key. -/
theorem scanApple_eq {strs : List CString} (hpos : pos ≤ buf.length) (hnul : ∀ s ∈ strs, 0 ∉ s)
    (h : buf.drop pos = strs.flatMap terminated) :
    scanApple buf pos =
      pos + ((strs.takeWhile fun s => !isKeyed s).flatMap terminated).length := by
  induction strs generalizing pos with
  | nil =>
    have hlen := length_of_drop hpos h
    simp only [List.flatMap_nil, List.length_nil] at hlen
    rw [scanApple, if_neg (by omega), hlen]
    rfl
  | cons s strs ih =>
    rw [List.flatMap_cons] at h
    have hlen := length_of_drop hpos h
    have hs := hnul s List.mem_cons_self
    have hstring : stringAt buf pos = s := by
      rw [stringAt, h, Lib.untilNul_terminated hs]
    have hslen := strnlen_of_drop hs h
    simp only [List.length_append, Lib.length_terminated] at hlen
    rw [scanApple, if_pos (by omega)]
    simp only [memcmp_key_iff, hstring, ← isKeyed_iff]
    -- the string is the first one of the system, or is passed over
    cases hkey : isKeyed s with
    | true => simp [hkey]
    | false =>
      have hrest := drop_behind_string h
      rw [if_neg (by simp), hslen, if_neg (by omega),
        ih (by omega) (fun a ha => hnul a (List.mem_cons_of_mem s ha)) hrest,
        List.takeWhile_cons_of_pos (by simp [hkey]), List.flatMap_cons, List.length_append,
        Lib.length_terminated]
      omega

/-- Strings take at least their NULs. -/
theorem eq_nil_of_flatMap_terminated {strs : List CString}
    (h : (strs.flatMap terminated).length = 0) :
    strs = [] := by
  cases strs with
  | nil => rfl
  | cons s strs => simp at h

namespace ArgsRegion

variable {r : ArgsRegion}

/-- What `environ` should serve. -/
def envBytes (r : ArgsRegion) : List UInt8 := r.env.flatMap terminated

/-- What `auxv` should serve. -/
def appleBytes (r : ArgsRegion) : List UInt8 := r.apple.flatMap terminated

def envOff (r : ArgsRegion) : ℕ := r.padStart + r.pad + r.argvBytes.length

theorem after_eq (r : ArgsRegion) : r.after = (r.env ++ r.apple).flatMap terminated :=
  List.flatMap_append.symm

theorem drop_envOff (r : ArgsRegion) : r.bytes.drop r.envOff = r.after := by
  rw [envOff, ← List.drop_drop, drop_argv, List.drop_left]

theorem leadingArgc_pos (hargc : r.argv.length < 2 ^ 31) : 0 < leadingArgc r.bytes := by
  have hpos : 0 < r.argv.length := List.length_pos_iff.mpr r.argv_ne
  rw [Int32.lt_iff_toInt_lt, leadingArgc, argc_eq hargc]
  show (0 : ℤ) < r.argv.length
  omega

/-- The environment of a whole region is found. -/
theorem envStart_eq (hargc : r.argv.length < 2 ^ 31) (hfirst : r.argv.head? ≠ some []) :
    envStart r.bytes = r.envOff := by
  have hlen := r.length_bytes
  have hstart : r.padStart = 4 + r.path.length + 1 := rfl
  have hpath := strnlen_of_drop r.path_nul r.drop_four
  have hargv : argvStart r.bytes = r.padStart + r.pad := by
    rw [argvStart, hpath, if_pos (by omega)]
    exact skipPadding_eq r.drop_padStart (head?_argv_ne hfirst)
  have hcount : (leadingArgc r.bytes).toNatClampNeg = r.argv.length := by
    show (leadingArgc r.bytes).toInt.toNat = r.argv.length
    rw [leadingArgc, argc_eq hargc, Int.toNat_natCast]
  rw [envStart, hargv, hcount, skipStrings_eq (by omega) r.argv_nul r.drop_argv]
  rfl

/-- The sections of the first `n` bytes of a region. -/
theorem locateSections_take (hargc : r.argv.length < 2 ^ 31) (hfirst : r.argv.head? ≠ some [])
    {n : ℕ} (hfour : 4 ≤ n) (hn : n ≤ r.bytes.length) :
    locateSections (r.bytes.take n) =
      .ok ⟨r.bytes.take n, argvStart (r.bytes.take n), min r.envOff n,
        scanApple (r.bytes.take n) (min r.envOff n)⟩ := by
  have hstart : envStart (r.bytes.take n) = min r.envOff n := by
    rw [envStart_take hfour hn, envStart_eq hargc hfirst]
  rw [← hstart]
  apply locateSections_of_argc
  · rw [List.length_take]
    omega
  · rw [leadingArgc_take hfour]
    exact leadingArgc_pos hargc

/-- What the two nodes serve together is what was read behind the arguments. -/
theorem spans_length (r : ArgsRegion) (n : ℕ)
    (ha : a = ⟨r.bytes.take n, argvStart (r.bytes.take n), min r.envOff n,
      scanApple (r.bytes.take n) (min r.envOff n)⟩) (hn : n ≤ r.bytes.length) :
    a.envSpan.length + a.appleSpan.length = n - min r.envOff n := by
  have hlength : (r.bytes.take n).length = n := by
    rw [List.length_take]
    omega
  have hbound : Boundary (r.bytes.take n) (min r.envOff n) _ :=
    scanApple_boundary (by omega)
  have hle := hbound.le
  have hend := hbound.le_length
  rw [ha]
  simp only [Procargs.envSpan, Procargs.appleSpan, List.length_take, List.length_drop, hlength]
  omega

/-- If the whole region was read, `environ` serves the strings in front of the first one
that begins with the key, and `auxv` serves the others. -/
theorem spans_eq (hnul : ∀ s ∈ r.env ++ r.apple, 0 ∉ s)
    (ha : a = ⟨r.bytes, argvStart r.bytes, r.envOff, scanApple r.bytes r.envOff⟩) :
    a.envSpan = ((r.env ++ r.apple).takeWhile fun s => !isKeyed s).flatMap terminated ∧
      a.appleSpan = ((r.env ++ r.apple).dropWhile fun s => !isKeyed s).flatMap terminated := by
  have hlen := r.length_bytes
  have hdrop : r.bytes.drop r.envOff = (r.env ++ r.apple).flatMap terminated := by
    rw [drop_envOff, after_eq]
  have hscan := scanApple_eq (by rw [envOff]; omega) hnul hdrop
  have hsplit : (r.env ++ r.apple).flatMap terminated =
      ((r.env ++ r.apple).takeWhile fun s => !isKeyed s).flatMap terminated ++
        ((r.env ++ r.apple).dropWhile fun s => !isKeyed s).flatMap terminated := by
    rw [← List.flatMap_append, List.takeWhile_append_dropWhile]
  rw [ha]
  simp only [Procargs.envSpan, Procargs.appleSpan, hscan, Nat.add_sub_cancel_left]
  rw [← List.drop_drop, hdrop, hsplit]
  exact ⟨List.take_left, List.drop_left⟩

/-- Of a whole region the nodes serve the right parts if and only if no string of the
environment begins with the key. -/
theorem spans_right_iff (hnul : ∀ s ∈ r.env ++ r.apple, 0 ∉ s) {first : CString}
    {rest : List CString} (happle : r.apple = first :: rest) (hkey : isKeyed first = true)
    (ha : a = ⟨r.bytes, argvStart r.bytes, r.envOff, scanApple r.bytes r.envOff⟩) :
    a.envSpan = r.envBytes ∧ a.appleSpan = r.appleBytes ↔ ∀ s ∈ r.env, isKeyed s = false := by
  obtain ⟨henv, hauxv⟩ := spans_eq hnul ha
  rw [henv, hauxv]
  constructor
  · rintro ⟨hserved, -⟩ s hs
    -- the strings served are as many as those of the environment
    have hmem : s ∈ (r.env ++ r.apple).takeWhile fun s => !isKeyed s := by
      rcases List.prefix_or_prefix_of_prefix (List.takeWhile_prefix fun s => !isKeyed s)
        (List.prefix_append r.env r.apple) with ⟨more, hmore⟩ | hprefix
      · have hnone : more = [] := by
          apply eq_nil_of_flatMap_terminated
          have hcount := congrArg (fun strs => (strs.flatMap terminated).length) hmore
          simp only [List.flatMap_append, List.length_append] at hcount
          have hsame := congrArg List.length hserved
          rw [envBytes] at hsame
          omega
        rw [hnone, List.append_nil] at hmore
        rw [hmore]
        exact hs
      · exact hprefix.subset hs
    simpa using List.mem_takeWhile_imp hmem
  · intro hnone
    have hpass : ∀ s ∈ r.env, (!isKeyed s) = true := by
      intro s hs
      rw [hnone s hs]
      rfl
    have hstop : (!isKeyed first) ≠ true := by
      rw [hkey]
      decide
    rw [List.takeWhile_append_of_pos hpass, List.dropWhile_append_of_pos hpass, happle,
      List.takeWhile_cons_of_neg (p := fun s => !isKeyed s) hstop,
      List.dropWhile_cons_of_neg (p := fun s => !isKeyed s) hstop, List.append_nil,
      ← happle]
    exact ⟨rfl, rfl⟩

end ArgsRegion

section Nodes

variable {pt : ProcTable} {noStack : Proc → Bool} {mem : Allocator} {pnp : Pfsnode} {p : Proc}
  {sysctl : Int32 → List UInt8} {fuel : ℕ}

/-- A node serves its span of the part of the region that is read. -/
theorem serveSpan_eq (span : Procargs → CString)
    (hproc : pt.procFind pnp.nodeId.nodeidPid = some p) (hstack : noStack p = false)
    (hmem : ∀ n, (mem.malloc n).isSome = true) {r : ArgsRegion} (hsysctl : sysctl p.pPid = r.bytes)
    (hlocate : locateSections (r.bytes.take Transfer.procfsCmdlineMax) = .ok a)
    (hfuel : Transfer.procfsCmdlineMax / Ctl.procfsCtlMaxpayload < fuel) :
    serveSpan span pt noStack mem (fun pid => procfsdHandleProcargs true (.ok (sysctl pid)))
      fuel pnp =
      some (.ok (span a)) := by
  simp only [serveSpan, hproc, hstack, hsysctl, readProcargs_eq hmem r hfuel, hlocate,
    Option.map_some]
  rfl

/-- If the region is short enough, it is a span of the whole region. -/
theorem serveSpan_whole (span : Procargs → CString)
    (hproc : pt.procFind pnp.nodeId.nodeidPid = some p) (hstack : noStack p = false)
    (hmem : ∀ n, (mem.malloc n).isSome = true) {r : ArgsRegion} (hargc : r.argv.length < 2 ^ 31)
    (hfirst : r.argv.head? ≠ some []) (hfits : r.bytes.length ≤ Transfer.procfsCmdlineMax)
    (hsysctl : sysctl p.pPid = r.bytes)
    (hfuel : Transfer.procfsCmdlineMax / Ctl.procfsCtlMaxpayload < fuel) :
    serveSpan span pt noStack mem (fun pid => procfsdHandleProcargs true (.ok (sysctl pid)))
      fuel pnp =
      some (.ok (span ⟨r.bytes, argvStart r.bytes, r.envOff, scanApple r.bytes r.envOff⟩)) := by
  have hlen := r.length_bytes
  have hoff : r.envOff = r.padStart + r.pad + r.argvBytes.length := rfl
  have hlocate := ArgsRegion.locateSections_take hargc hfirst r.four_le_length (Nat.le_refl _)
  rw [List.take_length, Nat.min_eq_left (by omega)] at hlocate
  apply serveSpan_eq span hproc hstack hmem hsysctl _ hfuel
  rw [List.take_of_length_le hfits]
  exact hlocate

/-- `environ` serves exactly the environment and the native `auxv` exactly the strings of
the system if and only if no string of the environment begins with the key and the region is
not longer than the part of it that is read. -/
theorem environ_auxv_serve_iff (doauxvLinux : Pfsnode → Option (Except Int32 CString))
    (hproc : pt.procFind pnp.nodeId.nodeidPid = some p) (hstack : noStack p = false)
    (hmem : ∀ n, (mem.malloc n).isSome = true) (r : ArgsRegion) (hargc : r.argv.length < 2 ^ 31)
    (hfirst : r.argv.head? ≠ some []) (hnul : ∀ s ∈ r.env ++ r.apple, 0 ∉ s) {first : CString}
    {rest : List CString} (happle : r.apple = first :: rest) (hkey : procfsExecKey <+: first)
    (hsysctl : sysctl p.pPid = r.bytes)
    (hfuel : Transfer.procfsCmdlineMax / Ctl.procfsCtlMaxpayload < fuel) :
    (procfsDoenviron pt noStack mem (fun pid => procfsdHandleProcargs true (.ok (sysctl pid))) fuel
          .UIO_READ pnp = some (.ok r.envBytes) ∧
        procfsDoauxv false doauxvLinux pt noStack mem
          (fun pid => procfsdHandleProcargs true (.ok (sysctl pid))) fuel .UIO_READ pnp =
            some (.ok r.appleBytes)) ↔
      (∀ s ∈ r.env, ¬ procfsExecKey <+: s) ∧ r.bytes.length ≤ Transfer.procfsCmdlineMax := by
  have hmax : Transfer.procfsCmdlineMax = 262144 := rfl
  by_cases hfits : r.bytes.length ≤ Transfer.procfsCmdlineMax
  · have hserve := fun span => serveSpan_whole (p := p) span hproc hstack hmem hargc hfirst hfits
      hsysctl hfuel
    simp only [procfsDoenviron, procfsDoauxv, ne_eq, not_true_eq_false, if_false,
      Bool.false_eq_true, hserve, Option.some.injEq, Except.ok.injEq]
    rw [ArgsRegion.spans_right_iff hnul happle (isKeyed_iff.mpr hkey) rfl]
    simp only [← isKeyed_iff, Bool.not_eq_true, hfits, and_true]
  · -- what was cut off is missing from what the nodes serve together
    refine iff_of_false ?_ (fun h => hfits h.2)
    have hcut : Transfer.procfsCmdlineMax ≤ r.bytes.length := by omega
    have hlocate := ArgsRegion.locateSections_take hargc hfirst (by omega) hcut
    have hserve := fun span => serveSpan_eq (p := p) span hproc hstack hmem hsysctl hlocate hfuel
    simp only [procfsDoenviron, procfsDoauxv, ne_eq, not_true_eq_false, if_false,
      Bool.false_eq_true, hserve, Option.some.injEq, Except.ok.injEq]
    rintro ⟨henv, hauxv⟩
    have htotal := r.spans_length _ rfl hcut
    rw [henv, hauxv] at htotal
    have hlen := r.length_bytes
    have hoff : r.envOff = r.padStart + r.pad + r.argvBytes.length := rfl
    have hafter : r.after.length = r.envBytes.length + r.appleBytes.length := List.length_append
    have hsome : 0 < r.appleBytes.length := by
      rw [ArgsRegion.appleBytes, happle]
      simp
    omega

end Nodes

def shEnviron (r : ArgsRegion) : Option (Except Int32 CString) :=
  procfsDoenviron shWorld.procs (fun _ => false) Transfer.zeroed
    (fun _ => procfsdHandleProcargs true (.ok r.bytes)) 129 .UIO_READ shFile

def shAuxv (r : ArgsRegion) : Option (Except Int32 CString) :=
  procfsDoauxv false (fun _ => none) shWorld.procs (fun _ => false) Transfer.zeroed
    (fun _ => procfsdHandleProcargs true (.ok r.bytes)) 129 .UIO_READ shFile

theorem environ_auxv_serve_sh :
    shEnviron (shRegion [cstr "sh"] (by decide) (by decide)) = some (.ok (cstr "KEY=1" ++ [0])) ∧
      shAuxv (shRegion [cstr "sh"] (by decide) (by decide)) =
        some (.ok (cstr "executable_path=/bin/sh" ++ [0])) :=
  (environ_auxv_serve_iff (p := shProc) (fun _ => none) rfl rfl (fun _ => rfl)
    (shRegion [cstr "sh"] (by decide) (by decide)) (by decide) (by decide) (by decide) rfl
    (by decide) rfl (by decide)).mpr ⟨by decide, by decide⟩

/-- The shell with a variable that has the name of the key. -/
def shExecRegion : ArgsRegion :=
  { shRegion [cstr "sh"] (by decide) (by decide) with
    env := [cstr "executable_path=x", cstr "KEY=1"] }

/-- `environ` is empty and `auxv` has the whole environment. -/
theorem environ_empty_exec :
    shEnviron shExecRegion = some (.ok []) ∧
      shEnviron shExecRegion ≠ some (.ok shExecRegion.envBytes) ∧
      shAuxv shExecRegion = some (.ok (shExecRegion.envBytes ++ shExecRegion.appleBytes)) ∧
        shAuxv shExecRegion ≠ some (.ok shExecRegion.appleBytes) := by
  have hserve : ∀ span, serveSpan span shWorld.procs (fun _ => false) Transfer.zeroed
      (fun _ => procfsdHandleProcargs true (.ok shExecRegion.bytes)) 129 shFile =
        some (.ok (span ⟨shExecRegion.bytes, argvStart shExecRegion.bytes, shExecRegion.envOff,
          scanApple shExecRegion.bytes shExecRegion.envOff⟩)) := fun span =>
    serveSpan_whole (p := shProc) span rfl rfl (fun _ => rfl) (by decide) (by decide)
      (by decide) rfl
      (by decide)
  obtain ⟨henv, hauxv⟩ := ArgsRegion.spans_eq (r := shExecRegion) (by decide) rfl
  have henviron : shEnviron shExecRegion = _ := hserve Procargs.envSpan
  have hauxv' : shAuxv shExecRegion = _ := hserve Procargs.appleSpan
  rw [henviron, hauxv', henv, hauxv]
  decide

end ProcFS.Data
