import ProcFS.Data.Memory
import ProcFS.Lib.Bytes

/-!
# ProcFS.Data.Cmdline — the arguments of a process

The argument region of a process has the number of its arguments, the path it was
started from, padding, and then three lists of strings: the arguments, the environment
and what the system adds. `cmdline` serves the arguments. Where they begin is not stored:
the code passes over every NUL behind the path, so an empty first argument is taken for
padding, and the argument count then reaches into the environment.

* `skipStrings_eq`: the loop over as many strings as there are.
* `locateSections_eq`: the sections that are found in a region.
* `cmdline_serves_argv_iff`: when the arguments are served.
-/

namespace ProcFS.Data

open Ctl (Result)
open Lib (leNat leBytes terminated untilNul)
open Transfer (Allocator einval procfsFetchProcargs procfsdHandleProcargs)

/-! ## Finding the sections -/

/-- `strnlen(buf + pos, n - pos)`. -/
def strnlen (buf : List UInt8) (pos : ℕ) : ℕ := (untilNul (buf.drop pos)).length

/-- The loop over the alignment padding. -/
def skipPadding (buf : List UInt8) (pos : ℕ) : ℕ :=
  pos + ((buf.drop pos).takeWhile fun b => b == 0).length

/-- The loop over the argument strings, with `left` of them to go. -/
def skipStrings (buf : List UInt8) : ℕ → ℕ → ℕ
  | 0, pos => pos
  | left + 1, pos =>
    if pos < buf.length then
      let remaining := buf.length - pos
      let arglen := strnlen buf pos
      -- the last string may lack its NUL
      skipStrings buf left (pos + if arglen < remaining then arglen + 1 else arglen)
    else pos

def procfsExecKey : CString := cstr "executable_path="

/-- The search for the first string of the system. -/
def scanApple (buf : List UInt8) (scan : ℕ) : ℕ :=
  if scan < buf.length then
    let remaining := buf.length - scan
    if procfsExecKey.length ≤ remaining ∧
        (buf.drop scan).take procfsExecKey.length = procfsExecKey then scan
    else
      let slen := strnlen buf scan
      -- without a NUL this was the last string
      if slen = remaining then buf.length else scanApple buf (scan + slen + 1)
  else buf.length
termination_by buf.length - scan

/-- What `procfs_read_procargs` finds. -/
structure Procargs where
  buf : List UInt8
  argvOff : ℕ
  envOff : ℕ
  appleOff : ℕ
deriving DecidableEq, Repr

/-- `procfs_read_procargs`, once the region was fetched. -/
def locateSections (buf : List UInt8) : Except Int32 Procargs :=
  if buf.length < 4 then .error einval
  else
    let argc := Int32.ofNat (leNat (buf.take 4))
    if argc ≤ 0 then .error einval
    else
      -- the path, its NUL and the padding
      let pos := 4 + strnlen buf 4
      let argvOff := if pos < buf.length then skipPadding buf (pos + 1) else pos
      let envOff := skipStrings buf argc.toNatClampNeg argvOff
      .ok ⟨buf, argvOff, envOff, scanApple buf envOff⟩

def procfsReadProcargs (mem : Allocator) (request : ℕ → Result) (fuel : ℕ) :
    Option (Except Int32 Procargs) :=
  (procfsFetchProcargs mem request fuel).map fun fetched => fetched.bind locateSections

/-! ## The node -/

def procfsCmdlineComm (p : Proc) : CString :=
  let comm := p.pComm.take maxcomlen
  cstr "(" ++ (if comm = [] then cstr "unknown" else comm) ++ cstr ")"

/-- The buffer that `procfs_doprocargs_helper` hands to `procfs_copy_data`. -/
def procfsDoprocargsHelper (mem : Allocator) (request : ℕ → Result) (fuel : ℕ) (p : Proc) :
    Option CString :=
  (procfsReadProcargs mem request fuel).map fun r =>
    match r with
    | .error _ => procfsCmdlineComm p
    | .ok a => (a.buf.drop a.argvOff).take (a.envOff - a.argvOff)

/-- `procfs_doprocargs`: an error, or the text that the node serves. `noStack` tells
whether the process is a zombie or a system process. -/
def procfsDoprocargs (pt : ProcTable) (noStack : Proc → Bool) (mem : Allocator)
    (request : Int32 → ℕ → Result) (fuel : ℕ) (rw : UioRw) (pnp : Pfsnode) :
    Option (Except Int32 CString) :=
  match pt.procFind pnp.nodeId.nodeidPid with
  | none => some (.error Errno.ESRCH.code)
  | some p =>
    if rw ≠ .UIO_READ then some (.error eopnotsupp)
    else if noStack p then some (.ok (procfsCmdlineComm p))
    else (procfsDoprocargsHelper mem (request p.pPid) fuel p).map .ok

/-! ## The layout of the region -/

/-- The contents of an argument region. `pad` is the number of NULs that follow the path's
own to fill up the last eight bytes. -/
structure ArgsRegion where
  path : CString
  pad : ℕ
  argv : List CString
  env : List CString
  apple : List CString
  path_nul : 0 ∉ path
  argv_nul : ∀ s ∈ argv, 0 ∉ s
  argv_ne : argv ≠ []

namespace ArgsRegion

def argvBytes (r : ArgsRegion) : List UInt8 := r.argv.flatMap terminated

/-- What follows the arguments. -/
def after (r : ArgsRegion) : List UInt8 := r.env.flatMap terminated ++ r.apple.flatMap terminated

/-- The region as `KERN_PROCARGS2` lays it out. -/
def bytes (r : ArgsRegion) : List UInt8 :=
  leBytes 4 r.argv.length ++ (terminated r.path ++
    (List.replicate r.pad 0 ++ (r.argvBytes ++ r.after)))

end ArgsRegion

/-! ## What the loops pass over -/

/-- `strnlen` at a string is its length. -/
theorem strnlen_of_drop {buf s rest : List UInt8} {pos : ℕ} (hs : 0 ∉ s)
    (h : buf.drop pos = terminated s ++ rest) : strnlen buf pos = s.length := by
  rw [strnlen, h, Lib.untilNul_terminated hs]

theorem length_of_drop {buf rest : List UInt8} {pos : ℕ} (hpos : pos ≤ buf.length)
    (h : buf.drop pos = rest) : buf.length = pos + rest.length := by
  rw [← h, List.length_drop]
  omega

/-- What follows a string begins behind its NUL. -/
theorem drop_behind_string {buf s rest : List UInt8} {pos : ℕ}
    (h : buf.drop pos = terminated s ++ rest) : buf.drop (pos + s.length + 1) = rest := by
  rw [Nat.add_assoc, ← List.drop_drop, h]
  exact List.drop_left' (Lib.length_terminated s)

/-- The loop over as many strings as there are ends behind them. -/
theorem skipStrings_eq {buf : List UInt8} {args : List CString} {rest : List UInt8} {pos : ℕ}
    (hpos : pos ≤ buf.length) (hargs : ∀ s ∈ args, 0 ∉ s)
    (h : buf.drop pos = args.flatMap terminated ++ rest) :
    skipStrings buf args.length pos = pos + (args.flatMap terminated).length := by
  induction args generalizing pos with
  | nil => rfl
  | cons s args ih =>
    rw [List.flatMap_cons, List.append_assoc] at h
    have hlen := length_of_drop hpos h
    have hs := strnlen_of_drop (hargs s List.mem_cons_self) h
    have hrest := drop_behind_string h
    simp only [List.length_append, Lib.length_terminated] at hlen
    rw [List.length_cons, skipStrings, if_pos (by omega), hs]
    simp only [if_pos (show s.length < buf.length - pos by omega), ← Nat.add_assoc]
    rw [ih (by omega) (fun a ha => hargs a (List.mem_cons_of_mem s ha)) hrest,
      List.flatMap_cons, List.length_append, Lib.length_terminated]
    omega

/-- Behind the padding there is no NUL. -/
theorem getElem?_skipPadding (buf : List UInt8) (pos : ℕ) :
    buf[skipPadding buf pos]? ≠ some 0 := by
  intro hnul
  rw [skipPadding, ← List.getElem?_drop] at hnul
  generalize buf.drop pos = rest at hnul
  induction rest with
  | nil => cases hnul
  | cons b rest ih =>
    by_cases hb : b = 0
    · rw [List.takeWhile_cons_of_pos (by simpa using hb), List.length_cons,
        List.getElem?_cons_succ] at hnul
      exact ih hnul
    · rw [List.takeWhile_cons_of_neg (by simpa using hb)] at hnul
      exact hb (Option.some.inj hnul)

/-- NULs and then something else: exactly the NULs are passed over. -/
theorem skipPadding_eq {buf rest : List UInt8} {pos pad : ℕ}
    (h : buf.drop pos = List.replicate pad 0 ++ rest) (hrest : rest.head? ≠ some 0) :
    skipPadding buf pos = pos + pad := by
  have hstop : rest.takeWhile (fun b => b == 0) = [] := by
    cases rest with
    | nil => rfl
    | cons b rest =>
      have hb : b ≠ 0 := fun heq => hrest (by rw [heq, List.head?_cons])
      rw [List.takeWhile_cons_of_neg (by simpa using hb)]
  rw [skipPadding, h, List.takeWhile_append_of_pos (by simp), hstop, List.append_nil,
    List.length_replicate]

/-! ## The sections of a region -/

namespace ArgsRegion

variable {r : ArgsRegion}

def padStart (r : ArgsRegion) : ℕ := 4 + r.path.length + 1

theorem drop_four (r : ArgsRegion) : r.bytes.drop 4 = terminated r.path ++
    (List.replicate r.pad 0 ++ (r.argvBytes ++ r.after)) :=
  List.drop_left' (Lib.length_leBytes 4 _)

theorem drop_padStart (r : ArgsRegion) :
    r.bytes.drop r.padStart = List.replicate r.pad 0 ++ (r.argvBytes ++ r.after) := by
  exact drop_behind_string r.drop_four

theorem drop_argv (r : ArgsRegion) :
    r.bytes.drop (r.padStart + r.pad) = r.argvBytes ++ r.after := by
  rw [← List.drop_drop, drop_padStart]
  exact List.drop_left' List.length_replicate

theorem length_bytes (r : ArgsRegion) :
    r.bytes.length = r.padStart + r.pad + r.argvBytes.length + r.after.length := by
  simp only [bytes, padStart, List.length_append, Lib.length_leBytes, Lib.length_terminated,
    List.length_replicate]
  omega

theorem four_le_length (r : ArgsRegion) : 4 ≤ r.bytes.length := by
  have hlen := r.length_bytes
  have hstart : r.padStart = 4 + r.path.length + 1 := rfl
  omega

/-- Each string has at least its NUL. -/
theorem length_argv_le (r : ArgsRegion) : r.argv.length ≤ r.argvBytes.length := by
  unfold argvBytes
  induction r.argv with
  | nil => exact Nat.le_refl _
  | cons s args ih =>
    simp only [List.flatMap_cons, List.length_append, List.length_cons, Lib.length_terminated]
    omega

/-- The count is read back. -/
theorem argc_eq (hargc : r.argv.length < 2 ^ 31) :
    (Int32.ofNat (leNat (r.bytes.take 4))).toInt = r.argv.length := by
  have htake : r.bytes.take 4 = leBytes 4 r.argv.length :=
    List.take_left' (Lib.length_leBytes 4 _)
  rw [htake, Lib.leNat_leBytes (by omega)]
  exact Int32.toInt_ofNat_of_lt (by omega)

/-- The sections that are found in a region. -/
theorem locateSections_eq (hfits : r.bytes.length < 2 ^ 31) :
    locateSections r.bytes =
      .ok ⟨r.bytes, skipPadding r.bytes r.padStart,
        skipStrings r.bytes r.argv.length (skipPadding r.bytes r.padStart),
        scanApple r.bytes (skipStrings r.bytes r.argv.length
          (skipPadding r.bytes r.padStart))⟩ := by
  have hlen := r.length_bytes
  have hstart : r.padStart = 4 + r.path.length + 1 := rfl
  have hpos : 0 < r.argv.length := List.length_pos_iff.mpr r.argv_ne
  have hargs := r.length_argv_le
  have hargc := argc_eq (r := r) (by omega)
  have hpath := strnlen_of_drop r.path_nul r.drop_four
  have hcount : (Int32.ofNat (leNat (r.bytes.take 4))).toNatClampNeg = r.argv.length := by
    show (Int32.ofNat (leNat (r.bytes.take 4))).toInt.toNat = r.argv.length
    rw [hargc, Int.toNat_natCast]
  have hsome : ¬ Int32.ofNat (leNat (r.bytes.take 4)) ≤ 0 := by
    rw [Int32.le_iff_toInt_le, hargc]
    show ¬ (r.argv.length : ℤ) ≤ 0
    omega
  rw [locateSections, if_neg (by omega)]
  simp only [hpath, hcount, if_neg hsome, if_pos (show 4 + r.path.length < r.bytes.length by omega)]
  rfl

/-- What the node serves. -/
def cmdline (r : ArgsRegion) : CString :=
  let argvOff := skipPadding r.bytes r.padStart
  (r.bytes.drop argvOff).take (skipStrings r.bytes r.argv.length argvOff - argvOff)

/-- If the first argument is not empty, the arguments do not begin with a NUL. -/
theorem head?_argv_ne (hfirst : r.argv.head? ≠ some []) :
    (r.argvBytes ++ r.after).head? ≠ some 0 := by
  unfold argvBytes
  cases hargv : r.argv with
  | nil => exact absurd hargv r.argv_ne
  | cons s args =>
    cases s with
    | nil =>
      rw [hargv] at hfirst
      exact absurd rfl hfirst
    | cons b s =>
      have hb := r.argv_nul (b :: s) (by rw [hargv]; exact List.mem_cons_self)
      simp only [List.flatMap_cons, terminated, List.cons_append, List.head?_cons]
      intro heq
      exact hb (Option.some.inj heq ▸ List.mem_cons_self)

/-- The arguments are served if the first of them is not empty. -/
theorem cmdline_eq (hfirst : r.argv.head? ≠ some []) : r.cmdline = r.argvBytes := by
  have hargvOff := skipPadding_eq r.drop_padStart (head?_argv_ne hfirst)
  have hlen := r.length_bytes
  have henvOff := skipStrings_eq (by omega) r.argv_nul r.drop_argv
  simp only [cmdline, hargvOff, henvOff, Nat.add_sub_cancel_left, drop_argv]
  exact List.take_left

/-- Otherwise something else is: the first byte served is no NUL. -/
theorem cmdline_ne (hfirst : r.argv.head? = some []) : r.cmdline ≠ r.argvBytes := by
  intro heq
  have hnul : r.argvBytes.head? = some 0 := by
    unfold argvBytes
    cases hargv : r.argv with
    | nil => exact absurd hargv r.argv_ne
    | cons s args =>
      rw [hargv, List.head?_cons] at hfirst
      rw [Option.some.inj hfirst]
      rfl
  have hserved := getElem?_skipPadding r.bytes r.padStart
  rw [← heq, cmdline, List.head?_take] at hnul
  split at hnul
  · cases hnul
  · rw [List.head?_drop] at hnul
    exact hserved hnul

end ArgsRegion

/-! ## The whole node -/

section Node

variable {pt : ProcTable} {noStack : Proc → Bool} {mem : Allocator} {pnp : Pfsnode} {p : Proc}
  {sysctl : Int32 → List UInt8} {fuel : ℕ}

/-- The region is fetched up to its limit, and the sections are located in what was fetched. -/
theorem readProcargs_eq (hmem : ∀ n, (mem.malloc n).isSome = true) (r : ArgsRegion)
    (hfuel : Transfer.procfsCmdlineMax / Ctl.procfsCtlMaxpayload < fuel) :
    procfsReadProcargs mem (procfsdHandleProcargs true (.ok r.bytes)) fuel =
      some (locateSections (r.bytes.take Transfer.procfsCmdlineMax)) := by
  have hne : r.bytes ≠ [] := by
    intro hnil
    have hlen := r.four_le_length
    rw [hnil, List.length_nil] at hlen
    omega
  have hfetch := Transfer.fetchProcargs_steady hmem r.bytes hfuel
  rw [Transfer.firstBytes, if_neg hne] at hfetch
  rw [procfsReadProcargs, hfetch]
  rfl

/-- The region reaches the node in one piece. -/
theorem doprocargs_eq (hproc : pt.procFind pnp.nodeId.nodeidPid = some p)
    (hstack : noStack p = false) (hmem : ∀ n, (mem.malloc n).isSome = true) (r : ArgsRegion)
    (hfits : r.bytes.length ≤ Transfer.procfsCmdlineMax) (hsysctl : sysctl p.pPid = r.bytes)
    (hfuel : Transfer.procfsCmdlineMax / Ctl.procfsCtlMaxpayload < fuel) :
    procfsDoprocargs pt noStack mem (fun pid => procfsdHandleProcargs true (.ok (sysctl pid))) fuel
        .UIO_READ pnp = some (.ok r.cmdline) := by
  have hmax : Transfer.procfsCmdlineMax = 262144 := rfl
  have hread := readProcargs_eq hmem r hfuel
  rw [List.take_of_length_le hfits, ArgsRegion.locateSections_eq (by omega)] at hread
  simp only [procfsDoprocargs, hproc, hstack, procfsDoprocargsHelper, hsysctl, hread,
    Option.map_some]
  rfl

/-- `cmdline` serves exactly the arguments if and only if the first argument is not
empty. -/
theorem cmdline_serves_argv_iff (hproc : pt.procFind pnp.nodeId.nodeidPid = some p)
    (hstack : noStack p = false) (hmem : ∀ n, (mem.malloc n).isSome = true) (r : ArgsRegion)
    (hfits : r.bytes.length ≤ Transfer.procfsCmdlineMax) (hsysctl : sysctl p.pPid = r.bytes)
    (hfuel : Transfer.procfsCmdlineMax / Ctl.procfsCtlMaxpayload < fuel) :
    procfsDoprocargs pt noStack mem (fun pid => procfsdHandleProcargs true (.ok (sysctl pid))) fuel
        .UIO_READ pnp = some (.ok r.argvBytes) ↔
      r.argv.head? ≠ some [] := by
  rw [doprocargs_eq hproc hstack hmem r hfits hsysctl hfuel, Option.some.injEq, Except.ok.injEq]
  constructor
  · intro heq hfirst
    exact ArgsRegion.cmdline_ne hfirst heq
  · exact ArgsRegion.cmdline_eq

end Node

/-- The arguments and the environment of the shell. -/
def shRegion (argv : List CString) (hargv : ∀ s ∈ argv, 0 ∉ s) (hne : argv ≠ []) : ArgsRegion where
  path := cstr "/bin/sh"
  pad := 0
  argv := argv
  env := [cstr "KEY=1"]
  apple := [cstr "executable_path=/bin/sh"]
  path_nul := by decide
  argv_nul := hargv
  argv_ne := hne

def shCmdline (r : ArgsRegion) : Option (Except Int32 CString) :=
  procfsDoprocargs shWorld.procs (fun _ => false) Transfer.zeroed
    (fun _ => procfsdHandleProcargs true (.ok r.bytes)) 129 .UIO_READ shFile

theorem cmdline_serves_argv_dash :
    shCmdline (shRegion [cstr "sh", []] (by decide) (by decide)) =
      some (.ok (cstr "sh" ++ [0, 0])) :=
  (cmdline_serves_argv_iff (p := shProc) rfl rfl (fun _ => rfl)
    (shRegion [cstr "sh", []] (by decide) (by decide)) (by decide) rfl (by decide)).mpr (by decide)

/-- A single argument, which is empty: what is served is the environment. -/
theorem cmdline_serves_env :
    shCmdline (shRegion [[]] (by decide) (by decide)) = some (.ok (cstr "KEY=1" ++ [0])) ∧
      shCmdline (shRegion [[]] (by decide) (by decide)) ≠
        some (.ok (shRegion [[]] (by decide) (by decide)).argvBytes) := by
  have hnode : shCmdline (shRegion [[]] (by decide) (by decide)) =
      some (.ok (shRegion [[]] (by decide) (by decide)).cmdline) :=
    doprocargs_eq (p := shProc) rfl rfl (fun _ => rfl) _ (by decide) rfl (by decide)
  rw [hnode]
  exact ⟨by decide, by decide⟩

end ProcFS.Data
