import ProcFS.Data.Symtab
import ProcFS.Data.Wchan
import ProcFS.Lib.Bounded

/-!
# ProcFS.Data.Macho — parsing the kernel image

The daemon maps the image of the kernel and reads the symbol table out of it, once to print it and
once to keep the text symbols. Every read here fails when it is not within the file. The load
commands, the symbol entries and the beginnings of the names are checked against the sizes
before they are read; the header of a universal file, the fields of the load commands themselves,
the sections and the ends of the names are not.

* `commandLoop_spec`: what the loop over the load commands reads.
* `isSome_macho_iff`: when both parsers stay within a thin image.
* `symbolParsers_inside_iff`: when they stay within the file.
-/

namespace ProcFS.Data.Macho

open Lib (fieldAt readAt startsWith findString stringIn gather untilNul)

/-! ## The load commands -/

def mhMagic64 : ℕ := 0xfeedfacf

def fatMagic : ℕ := 0xcafebabe

def fatCigam : ℕ := 0xbebafeca

def lcSymtab : ℕ := 0x2

def lcSegment64 : ℕ := 0x19

/-- What the loop over the load commands has found: how many sections, what is known of the
first 255 of them, and the last `LC_SYMTAB`. -/
structure Found (τ : Type) where
  nsect : Int32
  table : List τ
  st : Option ℕ
deriving Repr

section Commands

variable {τ : Type} (img : List UInt8) (look : ℕ → Option τ)

/-- The loop over the sections of a segment: `sec` is the first one, `s` the next. -/
def sectionLoop (sec : ℕ) : ℕ → ℕ → Found τ → Option (Found τ)
  | 0, _, f => some f
  | left + 1, s, f =>
    let nsect := f.nsect + 1
    if nsect < 256 then
      (look (sec + 80 * s)).bind fun t =>
        sectionLoop sec left (s + 1) ⟨nsect, f.table.set nsect.toNatClampNeg t, f.st⟩
    else sectionLoop sec left (s + 1) { f with nsect := nsect }

/-- What is done for the load command at `p`. -/
def command (p : ℕ) (f : Found τ) : Option (Found τ) :=
  (readAt img 4 p).bind fun cmd =>
    if cmd = lcSymtab then some { f with st := some p }
    else if cmd = lcSegment64 then
      (readAt img 4 (p + 64)).bind fun nsects => sectionLoop look (p + 72) nsects 0 f
    else some f

/-- The loop over the load commands: `stop` is `end`, and `left` commands are left. -/
def commandLoop (stop : ℕ) : ℕ → ℕ → Found τ → Option (Found τ)
  | 0, _, f => some f
  | left + 1, p, f =>
    if stop < p + 8 then some f
    else
      (readAt img 4 (p + 4)).bind fun cmdsize =>
        if cmdsize < 8 ∨ stop < p + cmdsize then some f
        else (command img look p f).bind fun f => commandLoop stop left (p + cmdsize) f

end Commands

/-! ## The symbols -/

/-- A symbol table that has been accepted. -/
structure Symtab where
  symoff : ℕ
  nsyms : ℕ
  stroff : ℕ
  strsize : ℕ
deriving DecidableEq, Repr

/-- The check of the symbol table at `q`. -/
def symtabOf (img : List UInt8) (size q : ℕ) : Option (Option Symtab) :=
  (readAt img 4 (q + 12)).bind fun nsyms =>
    if nsyms = 0 then some none
    else
      (readAt img 4 (q + 8)).bind fun symoff =>
        if size < symoff + nsyms * 16 then some none
        else
          (readAt img 4 (q + 16)).bind fun stroff =>
            (readAt img 4 (q + 20)).bind fun strsize =>
              if size < stroff + strsize then some none
              else some (some ⟨symoff, nsyms, stroff, strsize⟩)

/-- The letter of a symbol, when `sect` is the one of its section; there is none for a symbol
that is undefined. -/
def typeLetter (sect nType : UInt8) : Option UInt8 :=
  let ntype := nType &&& 0x0e
  let type : Option UInt8 :=
    if ntype = 0x00 ∨ ntype = 0x0c then none
    else if ntype = 0x02 then some 97
    else if ntype = 0x0a then some 105
    else if ntype = 0x0e then some sect
    else some 63
  type.map fun c => if nType &&& 0x01 ≠ 0 ∧ 97 ≤ c ∧ c ≤ 122 then c - 32 else c

theorem strlcpy96_fits (src : CString) :
    ((untilNul src).take 95).length < 96 ∧ 0 ∉ (untilNul src).take 95 := by
  refine ⟨by rw [List.length_take]; omega, fun h => ?_⟩
  exact Lib.zero_notMem_untilNul src (List.mem_of_mem_take h)

/-- `strlcpy` into an array of 96 characters. -/
def strlcpy96 (src : CString) : Name96 := ⟨(untilNul src).take 95, strlcpy96_fits src⟩

section Entries

variable (img : List UInt8) (base : ℕ) (t : Symtab)

def entryAt (i : ℕ) : ℕ := base + t.symoff + 16 * i

/-- An iteration of the loop over the symbols in `ksyms_emit_macho`. -/
def emitEntry (table : List UInt8) (i : ℕ) : Option (List UInt8) :=
  let n := entryAt base t i
  (readAt img 1 (n + 4)).bind fun nType =>
    if UInt8.ofNat nType &&& 0xe0 ≠ 0 then some []
    else
      (readAt img 4 n).bind fun strx =>
        if strx = 0 ∨ t.strsize ≤ strx then some []
        else
          (readAt img 1 (base + t.stroff + strx)).bind fun c =>
            if c = 0 then some []
            else
              -- the section matters for a symbol in a section only
              (if UInt8.ofNat nType &&& 0x0e = 0x0e then readAt img 1 (n + 5) else some 0).bind
                fun nSect =>
                match typeLetter (table.getD nSect 116) (UInt8.ofNat nType) with
                | none => some []
                | some type =>
                  (readAt img 8 (n + 8)).bind fun nValue =>
                    (stringIn (img.drop (base + t.stroff + strx))).map fun name =>
                      symbolLine (UInt64.ofNat nValue) type name

/-- An iteration of the loop over the symbols in `ksym_collect_macho`. -/
def collectEntry (table : List Bool) (i : ℕ) : Option (List KsymEnt) :=
  let n := entryAt base t i
  (readAt img 1 (n + 4)).bind fun nType =>
    if UInt8.ofNat nType &&& 0xe0 ≠ 0 ∨ UInt8.ofNat nType &&& 0x0e ≠ 0x0e then some []
    else
      (readAt img 1 (n + 5)).bind fun nSect =>
        if !table.getD nSect false then some []
        else
          (readAt img 4 n).bind fun strx =>
            if strx = 0 ∨ t.strsize ≤ strx then some []
            else
              (readAt img 1 (base + t.stroff + strx)).bind fun c =>
                if c = 0 then some []
                else
                  (readAt img 8 (n + 8)).bind fun nValue =>
                    (stringIn (img.drop (base + t.stroff + strx))).map fun name =>
                      [⟨UInt64.ofNat nValue, strlcpy96 name⟩]

end Entries

/-! ## The parsers -/

section Parsers

variable (native : UInt32) (img : List UInt8)

/-- What comes after the loop over the load commands: the check of the symbol table, and the
loop over the symbols. -/
def parseSymbols {τ β : Type} (entry : Symtab → List τ → ℕ → Option (List β)) (size : ℕ)
    (f : Found τ) : Option (List β) :=
  match f.st with
  | none => some []
  | some q =>
    (symtabOf img size q).bind fun t =>
      match t with
      | none => some []
      | some t => gather (entry t f.table) (List.range t.nsyms)

/-- What the two parsers of a thin image have in common: the checks of the header, the loop over
the load commands, and the loop over the symbols. -/
def parseMacho {τ β : Type} (look : ℕ → Option τ) (unset : τ)
    (entry : Symtab → List τ → ℕ → Option (List β)) (base size : ℕ) : Option (List β) :=
  if size < 32 then some []
  else
    (readAt img 4 base).bind fun magic =>
      (readAt img 4 (base + 4)).bind fun cputype =>
        if magic ≠ mhMagic64 ∨ cputype ≠ native.toNat then some []
        else
          (readAt img 4 (base + 16)).bind fun ncmds =>
            (commandLoop img look (base + size) ncmds (base + 32)
                ⟨0, List.replicate 256 unset, none⟩).bind (parseSymbols img entry size)

def sectionLetter (q : ℕ) : Option UInt8 :=
  (startsWith (img.drop (q + 16)) (cstr "__DATA")).bind fun data =>
    if data then
      (findString (cstr "bss") (img.drop q)).bind fun bss =>
        if bss then some 98
        else (findString (cstr "common") (img.drop q)).map fun common => if common then 98 else 100
    else some 116

def sectionIsText (q : ℕ) : Option Bool := startsWith (img.drop (q + 16)) (cstr "__TEXT")

def ksymsEmitMacho (base size : ℕ) : Option (List UInt8) :=
  parseMacho native img (sectionLetter img) 116 (emitEntry img base) base size

def ksymCollectMacho (base size : ℕ) : Option (List KsymEnt) :=
  parseMacho native img (sectionIsText img) false (collectEntry img base) base size

/-- `OSSwapBigToHostInt32`. -/
def swap32 (x : ℕ) : ℕ :=
  x % 256 * 2 ^ 24 + x / 256 % 256 * 2 ^ 16 + x / 2 ^ 16 % 256 * 2 ^ 8 + x / 2 ^ 24 % 256

/-- The loop over the entries of a universal file: entry `i` is next. -/
def fatLoop {β : Type} (thin : ℕ → ℕ → Option (List β)) : ℕ → ℕ → Option (List β)
  | 0, _ => some []
  | left + 1, i =>
    (readAt img 4 (8 + 20 * i)).bind fun cputype =>
      if swap32 cputype = native.toNat then
        (readAt img 4 (8 + 20 * i + 8)).bind fun off =>
          (readAt img 4 (8 + 20 * i + 12)).bind fun size =>
            if swap32 off + swap32 size ≤ img.length then thin (swap32 off) (swap32 size)
            else some []
      else fatLoop thin left (i + 1)

/-- What the two functions that open the image have in common. An empty file is not looked at. -/
def parseImage {β : Type} (thin : ℕ → ℕ → Option (List β)) : Option (List β) :=
  if img = [] then some []
  else
    (readAt img 4 0).bind fun magic =>
      if magic = fatMagic ∨ magic = fatCigam then
        (readAt img 4 4).bind fun nfat => fatLoop native img thin (swap32 nfat) 0
      else if magic = mhMagic64 then thin 0 img.length
      else some []

def ksymsEmitKernel : Option (List UInt8) := parseImage native img (ksymsEmitMacho native img)

/-- `ksym_table_build`, up to the sort. -/
def ksymTableBuild : Option (List KsymEnt) :=
  parseImage native img (ksymCollectMacho native img)

end Parsers

/-! ## Where the reads are -/

section Places

variable (img : List UInt8)

/-- The load commands that are looked at. -/
def commandsAt (stop : ℕ) : ℕ → ℕ → List ℕ
  | 0, _ => []
  | left + 1, p =>
    if stop < p + 8 then []
    else if fieldAt 4 (p + 4) img < 8 ∨ stop < p + fieldAt 4 (p + 4) img then []
    else p :: commandsAt stop left (p + fieldAt 4 (p + 4) img)

def sectionsOf (p : ℕ) : List ℕ :=
  if fieldAt 4 p img = lcSegment64 then
    (List.range' 0 (fieldAt 4 (p + 64) img)).map fun s => p + 72 + 80 * s
  else []

/-- The last `LC_SYMTAB` of some load commands. -/
def lastSymtab (cmds : List ℕ) : Option ℕ :=
  (cmds.filter fun p => fieldAt 4 p img = lcSymtab).getLast?

def symtabAt (q : ℕ) : Symtab :=
  ⟨fieldAt 4 (q + 8) img, fieldAt 4 (q + 12) img, fieldAt 4 (q + 16) img, fieldAt 4 (q + 20) img⟩

/-- A symbol table that passes the checks. -/
def Symtab.Accepted (t : Symtab) (size : ℕ) : Prop :=
  t.nsyms ≠ 0 ∧ t.symoff + t.nsyms * 16 ≤ size ∧ t.stroff + t.strsize ≤ size

def nameOff (base : ℕ) (t : Symtab) (i : ℕ) : ℕ :=
  base + t.stroff + fieldAt 4 (entryAt base t i) img

/-- An entry that is neither for debugging nor undefined, with a name in the string table. -/
def Listed (base : ℕ) (t : Symtab) (i : ℕ) : Prop :=
  let nType := UInt8.ofNat (fieldAt 1 (entryAt base t i + 4) img)
  let strx := fieldAt 4 (entryAt base t i) img
  nType &&& 0xe0 = 0 ∧ nType &&& 0x0e ≠ 0x00 ∧ nType &&& 0x0e ≠ 0x0c ∧ strx ≠ 0 ∧ strx < t.strsize

end Places

/-! ## Load commands and sections -/

section Loops

variable {τ : Type} {img : List UInt8} {look : ℕ → Option τ}

/-- All sections that are looked at can be, when `n` have been counted before. -/
def LooksAt (look : ℕ → Option τ) : Int32 → List ℕ → Prop
  | _, [] => True
  | n, q :: qs => (n + 1 < 256 → (look q).isSome) ∧ LooksAt look (n + 1) qs

theorem count_succ (n : Int32) (k : ℕ) : n + 1 + Int32.ofNat k = n + Int32.ofNat (k + 1) := by
  rw [Int32.ofNat_add, Int32.add_assoc, Int32.add_comm (Int32.ofNat k)]
  rfl

theorem looksAt_append {n : Int32} {qs qs' : List ℕ} :
    LooksAt look n (qs ++ qs') ↔
      LooksAt look n qs ∧ LooksAt look (n + Int32.ofNat qs.length) qs' := by
  induction qs generalizing n with
  | nil => simp [LooksAt]
  | cons q qs ih =>
    rw [List.cons_append, LooksAt, LooksAt, ih, List.length_cons, count_succ, and_assoc]

theorem looksAt_iff {n : Int32} {qs : List ℕ} :
    LooksAt look n qs ↔
      ∀ k q, qs[k]? = some q → n + Int32.ofNat (k + 1) < 256 → (look q).isSome := by
  induction qs generalizing n with
  | nil => simp [LooksAt]
  | cons q qs ih =>
    rw [LooksAt, ih]
    constructor
    · rintro ⟨hfirst, hrest⟩ k q' hk
      cases k with
      | zero =>
        rw [List.getElem?_cons_zero, Option.some.injEq] at hk
        rw [← hk]
        exact hfirst
      | succ k =>
        rw [← count_succ]
        exact hrest k q' hk
    · intro h
      refine ⟨h 0 q rfl, fun k q' hk => ?_⟩
      rw [count_succ]
      exact h (k + 1) q' hk

/-- The loop over the sections: when it does not fail, it has counted them. -/
theorem sectionLoop_spec (sec left s : ℕ) (f : Found τ) :
    ((sectionLoop look sec left s f).isSome ↔
      LooksAt look f.nsect ((List.range' s left).map fun s => sec + 80 * s)) ∧
    ∀ f', sectionLoop look sec left s f = some f' →
      f'.nsect = f.nsect + Int32.ofNat left ∧ f'.st = f.st := by
  induction left generalizing s f with
  | zero =>
    refine ⟨by simp [sectionLoop, LooksAt], fun f' hf' => ?_⟩
    obtain rfl := Option.some.inj hf'
    exact ⟨(Int32.add_zero _).symm, rfl⟩
  | succ left ih =>
    rw [List.range'_succ, List.map_cons, LooksAt]
    simp only [sectionLoop]
    split_ifs with hlt
    · -- the number of the section is below 256, so the section is looked at
      cases hlook : look (sec + 80 * s) with
      | none => simp [hlt]
      | some t =>
        obtain ⟨hsome, hvalue⟩ := ih (s + 1)
          ⟨f.nsect + 1, f.table.set (f.nsect + 1).toNatClampNeg t, f.st⟩
        refine ⟨?_, fun f' hf' => ?_⟩
        · rw [Option.bind_some, hsome, and_iff_right fun _ => Option.isSome_some]
        · rw [← count_succ]
          exact hvalue f' hf'
    · -- it is only counted
      obtain ⟨hsome, hvalue⟩ := ih (s + 1) { f with nsect := f.nsect + 1 }
      refine ⟨?_, fun f' hf' => ?_⟩
      · rw [hsome, and_iff_right fun hlt' => absurd hlt' hlt]
      · rw [← count_succ]
        exact hvalue f' hf'

theorem length_sectionsOf {p : ℕ} (h : fieldAt 4 p img = lcSegment64) :
    (sectionsOf img p).length = fieldAt 4 (p + 64) img := by
  rw [sectionsOf, if_pos h, List.length_map, List.length_range']

/-- A load command: when it does not fail, the sections are counted and a symbol table is
noted. -/
theorem command_spec {p : ℕ} (hp : p + 4 ≤ img.length) (f : Found τ) :
    ((command img look p f).isSome ↔
      (fieldAt 4 p img = lcSegment64 → p + 68 ≤ img.length) ∧
        LooksAt look f.nsect (sectionsOf img p)) ∧
    ∀ f', command img look p f = some f' →
      f'.nsect = f.nsect + Int32.ofNat (sectionsOf img p).length ∧
        f'.st = if fieldAt 4 p img = lcSymtab then some p else f.st := by
  have hdistinct : lcSymtab ≠ lcSegment64 := by decide
  rw [command, Lib.readAt_eq hp, Option.bind_some]
  -- of all kinds of commands only two are of interest
  by_cases hsym : fieldAt 4 p img = lcSymtab
  · have hseg : fieldAt 4 p img ≠ lcSegment64 := fun heq => hdistinct (hsym.symm.trans heq)
    rw [if_pos hsym, sectionsOf, if_neg hseg]
    refine ⟨by simp [LooksAt, hseg], fun f' hf' => ?_⟩
    obtain rfl := Option.some.inj hf'
    rw [if_pos hsym]
    exact ⟨(Int32.add_zero _).symm, rfl⟩
  · rw [if_neg hsym, if_neg hsym]
    by_cases hseg : fieldAt 4 p img = lcSegment64
    · rw [if_pos hseg, length_sectionsOf hseg]
      obtain ⟨hsome, hvalue⟩ := @sectionLoop_spec τ look (p + 72)
        (fieldAt 4 (p + 64) img) 0 f
      refine ⟨?_, fun f' hf' => ?_⟩
      · rw [Lib.isSome_readAt_bind, hsome, sectionsOf, if_pos hseg, forall_prop_of_true hseg]
      · exact hvalue f' (Lib.readAt_bind_eq_some_iff.mp hf').2
    · rw [if_neg hseg, sectionsOf, if_neg hseg]
      refine ⟨by simp [LooksAt, hseg], fun f' hf' => ?_⟩
      obtain rfl := Option.some.inj hf'
      exact ⟨(Int32.add_zero _).symm, rfl⟩

theorem lastSymtab_cons (p : ℕ) (cmds : List ℕ) (o : Option ℕ) :
    (lastSymtab img (p :: cmds)).or o =
      (lastSymtab img cmds).or (if fieldAt 4 p img = lcSymtab then some p else o) := by
  rw [lastSymtab, lastSymtab, List.filter_cons]
  split_ifs with hdec hsym hsym
  · rw [List.getLast?_cons]
    cases (cmds.filter fun p => fieldAt 4 p img = lcSymtab).getLast? <;> rfl
  · exact absurd (of_decide_eq_true hdec) hsym
  · exact absurd (decide_eq_true hsym) hdec
  · rfl

/-- The loop over the load commands. -/
theorem commandLoop_spec {stop : ℕ} (hstop : stop ≤ img.length) (left p : ℕ) (f : Found τ) :
    ((commandLoop img look stop left p f).isSome ↔
      (∀ c ∈ commandsAt img stop left p, fieldAt 4 c img = lcSegment64 → c + 68 ≤ img.length) ∧
        LooksAt look f.nsect ((commandsAt img stop left p).flatMap (sectionsOf img))) ∧
    ∀ f', commandLoop img look stop left p f = some f' →
      f'.st = (lastSymtab img (commandsAt img stop left p)).or f.st := by
  induction left generalizing p f with
  | zero =>
    refine ⟨by simp [commandLoop, commandsAt, LooksAt], fun f' hf' => ?_⟩
    obtain rfl := Option.some.inj hf'
    rfl
  | succ left ih =>
    rw [commandLoop, commandsAt]
    by_cases hend : stop < p + 8
    · rw [if_pos hend, if_pos hend]
      refine ⟨by simp [LooksAt], fun f' hf' => ?_⟩
      obtain rfl := Option.some.inj hf'
      rfl
    rw [if_neg hend, if_neg hend, Lib.readAt_eq (by omega), Option.bind_some]
    -- a command that does not fit ends the loop too
    by_cases hsize : fieldAt 4 (p + 4) img < 8 ∨ stop < p + fieldAt 4 (p + 4) img
    · rw [if_pos hsize, if_pos hsize]
      refine ⟨by simp [LooksAt], fun f' hf' => ?_⟩
      obtain rfl := Option.some.inj hf'
      rfl
    rw [if_neg hsize, if_neg hsize, List.forall_mem_cons, List.flatMap_cons, looksAt_append]
    obtain ⟨hsome, hvalue⟩ := @command_spec τ img look p (by omega) f
    cases hcommand : command img look p f with
    | none =>
      rw [hcommand, Option.isSome_none] at hsome
      refine ⟨?_, fun f' hf' => by cases hf'⟩
      rw [Option.bind_none, Option.isSome_none]
      constructor
      · intro h
        cases h
      · rintro ⟨⟨hfield, -⟩, hlooks, -⟩
        exact hsome.mpr ⟨hfield, hlooks⟩
    -- the command was read, so it has counted its sections before the rest begins
    | some g =>
      rw [hcommand] at hsome
      obtain ⟨hcount, hst⟩ := hvalue g hcommand
      obtain ⟨hrest, hlast⟩ := ih (p + fieldAt 4 (p + 4) img) g
      obtain ⟨hfield, hlooks⟩ := hsome.mp rfl
      refine ⟨?_, fun f' hf' => ?_⟩
      · rw [Option.bind_some, hrest, hcount, and_iff_right hfield, and_iff_right hlooks]
      · rw [lastSymtab_cons, ← hst]
        exact hlast f' hf'

end Loops

/-! ## The symbol table -/

section Table

variable {img : List UInt8} {base size : ℕ}

/-- The check of a symbol table reads its fields one after the other, as far as it needs
them. -/
theorem symtabOf_spec (q : ℕ) :
    ((symtabOf img size q).isSome ↔ q + 16 ≤ img.length ∧
      ((symtabAt img q).nsyms = 0 ∨
        size < (symtabAt img q).symoff + (symtabAt img q).nsyms * 16 ∨ q + 24 ≤ img.length)) ∧
    ∀ o, symtabOf img size q = some o →
      ((symtabAt img q).Accepted size ∧ o = some (symtabAt img q)) ∨
        (¬ (symtabAt img q).Accepted size ∧ o = none) := by
  generalize ht : symtabAt img q = t
  have hsymoff : fieldAt 4 (q + 8) img = t.symoff := congrArg Symtab.symoff ht
  have hnsyms : fieldAt 4 (q + 12) img = t.nsyms := congrArg Symtab.nsyms ht
  have hstroff : fieldAt 4 (q + 16) img = t.stroff := congrArg Symtab.stroff ht
  have hstrsize : fieldAt 4 (q + 20) img = t.strsize := congrArg Symtab.strsize ht
  rw [symtabOf]
  -- the first two fields are read in any case
  by_cases hlen : q + 16 ≤ img.length
  swap
  · have hnone : readAt img 4 (q + 12) = none := if_neg (by omega)
    rw [hnone]
    exact ⟨by simp [hlen], fun o ho => by cases ho⟩
  rw [Lib.readAt_eq (by omega : q + 12 + 4 ≤ img.length),
    Lib.readAt_eq (by omega : q + 8 + 4 ≤ img.length), Option.bind_some, Option.bind_some,
    hnsyms, hsymoff, and_iff_right hlen]
  by_cases hzero : t.nsyms = 0
  · rw [if_pos hzero]
    refine ⟨by simp [hzero], fun o ho => Or.inr ⟨fun hacc => hacc.1 hzero, ?_⟩⟩
    exact (Option.some.inj ho).symm
  rw [if_neg hzero, or_iff_right hzero]
  by_cases hbig : size < t.symoff + t.nsyms * 16
  · rw [if_pos hbig]
    refine ⟨by simp [hbig], fun o ho => Or.inr ⟨fun hacc => ?_, (Option.some.inj ho).symm⟩⟩
    exact absurd hbig (Nat.not_lt.mpr hacc.2.1)
  -- the other two only if these make sense
  rw [if_neg hbig, or_iff_right hbig, Lib.isSome_readAt_bind, Lib.isSome_readAt_bind]
  refine ⟨?_, fun o ho => ?_⟩
  · constructor
    · rintro ⟨-, hend, -⟩
      exact hend
    · intro hend
      refine ⟨by omega, hend, ?_⟩
      split_ifs <;> rfl
  · obtain ⟨-, ho⟩ := Lib.readAt_bind_eq_some_iff.mp ho
    obtain ⟨-, ho⟩ := Lib.readAt_bind_eq_some_iff.mp ho
    rw [hstroff, hstrsize] at ho
    split_ifs at ho with hstr
    · refine Or.inr ⟨fun hacc => ?_, (Option.some.inj ho).symm⟩
      exact absurd hstr (Nat.not_lt.mpr hacc.2.2)
    · refine Or.inl ⟨⟨hzero, Nat.not_lt.mp hbig, Nat.not_lt.mp hstr⟩, ?_⟩
      exact (Option.some.inj ho).symm

theorem zero_mem_drop_of_fieldAt {off : ℕ} (h : off < img.length) (hzero : fieldAt 1 off img = 0) :
    0 ∈ img.drop off := by
  rw [fieldAt, List.drop_eq_getElem_cons h, List.take_succ_cons, List.take_zero,
    Lib.leNat_eq_zero_iff] at hzero
  rw [List.drop_eq_getElem_cons h]
  exact List.mem_cons.mpr (Or.inl (hzero _ List.mem_cons_self).symm)

theorem typeLetter_eq_none_iff {sect nType : UInt8} :
    typeLetter sect nType = none ↔ nType &&& 0x0e = 0x00 ∨ nType &&& 0x0e = 0x0c := by
  rw [typeLetter, Option.map_eq_none_iff]
  split_ifs <;> simp_all

variable {t : Symtab} (hacc : t.Accepted size) (himg : base + size ≤ img.length)
  {i : ℕ} (hi : i < t.nsyms)

include hacc himg hi

/-- The entries of a symbol table that was accepted are within the image. -/
theorem entryAt_le : entryAt base t i + 16 ≤ img.length := by
  have hsyms := hacc.2.1
  rw [entryAt]
  omega

/-- Printing a symbol does not fail if its name ends within the image. -/
theorem isSome_emitEntry_iff (table : List UInt8) :
    (emitEntry img base t table i).isSome ↔
      (Listed img base t i → 0 ∈ img.drop (nameOff img base t i)) := by
  have hentry := entryAt_le hacc himg hi
  have hstrs := hacc.2.2
  simp only [Listed, nameOff, emitEntry]
  generalize entryAt base t i = n at hentry
  rw [Lib.readAt_eq (by omega : n + 4 + 1 ≤ img.length), Option.bind_some]
  generalize UInt8.ofNat (fieldAt 1 (n + 4) img) = nType
  -- the tests in their order; whatever skips the entry reads no name
  by_cases hstab : nType &&& 0xe0 = 0
  swap
  · simp [hstab]
  rw [if_neg (not_not.mpr hstab), Lib.readAt_eq (by omega : n + 4 ≤ img.length), Option.bind_some]
  generalize fieldAt 4 n img = strx
  by_cases hstrx : strx = 0 ∨ t.strsize ≤ strx
  · rw [if_pos hstrx]
    refine iff_of_true rfl ?_
    rintro ⟨-, -, -, hne, hlt⟩
    exact absurd hstrx (by omega)
  rw [if_neg hstrx, Lib.readAt_eq (by omega), Option.bind_some]
  by_cases hc : fieldAt 1 (base + t.stroff + strx) img = 0
  · rw [if_pos hc]
    exact iff_of_true rfl fun _ => zero_mem_drop_of_fieldAt (by omega) hc
  -- the section number is read where it matters, and lies in the entry
  obtain ⟨nSect, hsect⟩ : ∃ nSect,
      (if nType &&& 0x0e = 0x0e then readAt img 1 (n + 5) else some 0) = some nSect := by
    split_ifs
    · exact ⟨_, Lib.readAt_eq (by omega)⟩
    · exact ⟨0, rfl⟩
  rw [if_neg hc, hsect, Option.bind_some]
  cases htype : typeLetter (table.getD nSect 116) nType with
  | none =>
    refine iff_of_true rfl ?_
    rintro ⟨-, hundf, hpbud, -⟩
    rcases typeLetter_eq_none_iff.mp htype with h | h
    · exact absurd h hundf
    · exact absurd h hpbud
  | some type =>
    have hdefined : nType &&& 0x0e ≠ 0x00 ∧ nType &&& 0x0e ≠ 0x0c := by
      rw [← not_or, ← @typeLetter_eq_none_iff (table.getD nSect 116), htype]
      simp
    rw [Lib.readAt_eq (by omega : n + 8 + 8 ≤ img.length)]
    simp only [Option.bind_some, Option.isSome_map, Lib.isSome_stringIn_iff]
    rw [forall_prop_of_true]
    exact ⟨hstab, hdefined.1, hdefined.2, by omega, by omega⟩

/-- Keeping a symbol does not fail where printing it does not. -/
theorem isSome_collectEntry (table : List Bool)
    (h : Listed img base t i → 0 ∈ img.drop (nameOff img base t i)) :
    (collectEntry img base t table i).isSome := by
  have hentry := entryAt_le hacc himg hi
  have hstrs := hacc.2.2
  simp only [Listed, nameOff] at h
  simp only [collectEntry]
  generalize entryAt base t i = n at hentry h
  rw [Lib.readAt_eq (by omega : n + 4 + 1 ≤ img.length), Option.bind_some]
  generalize UInt8.ofNat (fieldAt 1 (n + 4) img) = nType at h
  split_ifs with hskip
  · rfl
  rw [not_or, not_not, not_not] at hskip
  rw [Lib.readAt_eq (by omega : n + 5 + 1 ≤ img.length), Option.bind_some]
  split_ifs
  · rfl
  rw [Lib.readAt_eq (by omega : n + 4 ≤ img.length), Option.bind_some]
  generalize fieldAt 4 n img = strx at h
  split_ifs with hstrx
  · rfl
  rw [Lib.readAt_eq (by omega), Option.bind_some]
  split_ifs
  · rfl
  rw [Lib.readAt_eq (by omega : n + 8 + 8 ≤ img.length), Option.bind_some, Option.isSome_map,
    Lib.isSome_stringIn_iff]
  -- a symbol in a section is not undefined
  refine h ⟨hskip.1, ?_, ?_, by omega, by omega⟩
  · rw [hskip.2]
    decide
  · rw [hskip.2]
    decide

end Table

/-! ## When all reads are within the image -/

section Inside

variable (native : UInt32) (img : List UInt8)

/-- The header of an image that is parsed. -/
def HeaderOk (base size : ℕ) : Prop :=
  32 ≤ size ∧ fieldAt 4 base img = mhMagic64 ∧ fieldAt 4 (base + 4) img = native.toNat

/-- The load commands of an image that are looked at. -/
def loadCommands (base size : ℕ) : List ℕ :=
  commandsAt img (base + size) (fieldAt 4 (base + 16) img) (base + 32)

/-- The memory ends within a string that it is compared with. -/
def EndsWithin (mem s : List UInt8) : Prop := mem <+: s ∧ mem ≠ s

/-- The names of the section at `q` are within the image as far as they are read: the segment
name, and for a data section the section name, up to a NUL or to the first `bss`. -/
def SectionInside (q : ℕ) : Prop :=
  ¬ EndsWithin (img.drop (q + 16)) (cstr "__DATA") ∧
    ¬ EndsWithin (img.drop (q + 16)) (cstr "__TEXT") ∧
    (cstr "__DATA" <+: img.drop (q + 16) → 0 ∈ img.drop q ∨ cstr "bss" <:+: img.drop q)

/-- The fields of the symbol table at `q` are within the image as far as they are read. -/
def SymtabReadable (size q : ℕ) : Prop :=
  q + 16 ≤ img.length ∧
    ((symtabAt img q).nsyms = 0 ∨
      size < (symtabAt img q).symoff + (symtabAt img q).nsyms * 16 ∨ q + 24 ≤ img.length)

/-- A thin image: every segment has its number of sections within the image, and every section
with a number below 256 its names; the symbol table is within the image, and so is the NUL at
the end of every name that is listed. -/
def MachoInside (base size : ℕ) : Prop :=
  HeaderOk native img base size →
    (∀ p ∈ loadCommands img base size, fieldAt 4 p img = lcSegment64 → p + 68 ≤ img.length) ∧
    (∀ k q, ((loadCommands img base size).flatMap (sectionsOf img))[k]? = some q →
      Int32.ofNat (k + 1) < 256 → SectionInside img q) ∧
    ∀ q, lastSymtab img (loadCommands img base size) = some q →
      SymtabReadable img size q ∧
        ((symtabAt img q).Accepted size → ∀ i < (symtabAt img q).nsyms,
          Listed img base (symtabAt img q) i → 0 ∈ img.drop (nameOff img base (symtabAt img q) i))

end Inside

section Parsing

variable {native : UInt32} {img : List UInt8} {base size : ℕ}

theorem isSome_parseSymbols_iff {τ β : Type} {entry : Symtab → List τ → ℕ → Option (List β)}
    {f : Found τ} :
    (parseSymbols img entry size f).isSome ↔
      ∀ q, f.st = some q → SymtabReadable img size q ∧
        ((symtabAt img q).Accepted size → ∀ i < (symtabAt img q).nsyms,
          (entry (symtabAt img q) f.table i).isSome) := by
  rw [parseSymbols]
  cases f.st with
  | none => simp
  | some q =>
    obtain ⟨hsome, hvalue⟩ := @symtabOf_spec img size q
    simp only [Option.some.injEq, forall_eq']
    cases htab : symtabOf img size q with
    | none =>
      rw [htab, Option.isSome_none] at hsome
      refine iff_of_false (by simp) fun h => ?_
      exact absurd (hsome.mpr h.1) (by decide)
    | some o =>
      rw [htab] at hsome
      have hread : SymtabReadable img size q := hsome.mp rfl
      rw [Option.bind_some, and_iff_right hread]
      rcases hvalue o htab with ⟨hacc, rfl⟩ | ⟨hacc, rfl⟩
      · rw [Lib.isSome_gather_iff, forall_prop_of_true hacc]
        simp only [List.mem_range]
      · -- a table that is refused has no entries to read
        exact iff_of_true rfl fun h => absurd h hacc

section Parser

variable {τ β : Type} {look : ℕ → Option τ} {unset : τ}
  {entry : Symtab → List τ → ℕ → Option (List β)} (himg : base + size ≤ img.length)

include himg

/-- An image with another header is not parsed. -/
theorem parseMacho_of_not_headerOk (h : ¬ HeaderOk native img base size) :
    parseMacho native img look unset entry base size = some [] := by
  rw [parseMacho]
  split_ifs with hsize
  · rfl
  rw [Lib.readAt_eq (by omega), Lib.readAt_eq (by omega), Option.bind_some, Option.bind_some,
    if_pos]
  by_contra hheader
  rw [not_or, not_not, not_not] at hheader
  exact h ⟨Nat.not_lt.mp hsize, hheader⟩

theorem parseMacho_of_headerOk (h : HeaderOk native img base size) :
    parseMacho native img look unset entry base size =
      (commandLoop img look (base + size) (fieldAt 4 (base + 16) img) (base + 32)
        ⟨0, List.replicate 256 unset, none⟩).bind (parseSymbols img entry size) := by
  obtain ⟨hsize, hmagic, hcpu⟩ := h
  rw [parseMacho, if_neg (by omega), Lib.readAt_eq (by omega), Lib.readAt_eq (by omega),
    Lib.readAt_eq (by omega), Option.bind_some, Option.bind_some, Option.bind_some, if_neg]
  simp [hmagic, hcpu]

/-- What a parser that has not failed has read. -/
theorem inside_of_parseMacho (hsome : (parseMacho native img look unset entry base size).isSome)
    (h : HeaderOk native img base size) :
    ((∀ p ∈ loadCommands img base size, fieldAt 4 p img = lcSegment64 → p + 68 ≤ img.length) ∧
      LooksAt look 0 ((loadCommands img base size).flatMap (sectionsOf img))) ∧
    ∃ table : List τ, ∀ q, lastSymtab img (loadCommands img base size) = some q →
      SymtabReadable img size q ∧
        ((symtabAt img q).Accepted size → ∀ i < (symtabAt img q).nsyms,
          (entry (symtabAt img q) table i).isSome) := by
  obtain ⟨hloop, hlast⟩ := @commandLoop_spec τ img look _ himg (fieldAt 4 (base + 16) img)
    (base + 32) ⟨0, List.replicate 256 unset, none⟩
  rw [parseMacho_of_headerOk himg h] at hsome
  cases hf : commandLoop img look (base + size) (fieldAt 4 (base + 16) img) (base + 32)
      ⟨0, List.replicate 256 unset, none⟩ with
  | none =>
    rw [hf] at hsome
    cases hsome
  | some f =>
    rw [hf, Option.bind_some, isSome_parseSymbols_iff] at hsome
    rw [hf] at hloop
    refine ⟨hloop.mp rfl, f.table, fun q hq => hsome q ?_⟩
    rw [hlast f hf, Option.or_none]
    exact hq

/-- A parser does not fail where it has what it reads. -/
theorem isSome_parseMacho (h : HeaderOk native img base size →
    ((∀ p ∈ loadCommands img base size, fieldAt 4 p img = lcSegment64 → p + 68 ≤ img.length) ∧
      LooksAt look 0 ((loadCommands img base size).flatMap (sectionsOf img))) ∧
    ∀ (table : List τ) (q : ℕ), lastSymtab img (loadCommands img base size) = some q →
      SymtabReadable img size q ∧
        ((symtabAt img q).Accepted size → ∀ i < (symtabAt img q).nsyms,
          (entry (symtabAt img q) table i).isSome)) :
    (parseMacho native img look unset entry base size).isSome := by
  by_cases hheader : HeaderOk native img base size
  swap
  · rw [parseMacho_of_not_headerOk himg hheader]
    rfl
  obtain ⟨hcommands, hsymbols⟩ := h hheader
  obtain ⟨hloop, hlast⟩ := @commandLoop_spec τ img look _ himg (fieldAt 4 (base + 16) img)
    (base + 32) ⟨0, List.replicate 256 unset, none⟩
  rw [parseMacho_of_headerOk himg hheader]
  obtain ⟨f, hf⟩ := Option.isSome_iff_exists.mp (hloop.mpr hcommands)
  rw [hf, Option.bind_some, isSome_parseSymbols_iff]
  intro q hq
  refine hsymbols f.table q ?_
  rw [hlast f hf, Option.or_none] at hq
  exact hq

end Parser

/-- The search for `common` is only made when the one for `bss` has met a NUL. -/
theorem isSome_sectionLetter_iff {q : ℕ} :
    (sectionLetter img q).isSome ↔ ¬ EndsWithin (img.drop (q + 16)) (cstr "__DATA") ∧
      (cstr "__DATA" <+: img.drop (q + 16) → 0 ∈ img.drop q ∨ cstr "bss" <:+: img.drop q) := by
  rw [sectionLetter, EndsWithin, ← Lib.startsWith_eq_none_iff, ← Lib.startsWith_eq_true_iff]
  cases startsWith (img.drop (q + 16)) (cstr "__DATA") with
  | none => simp
  | some data =>
    cases data with
    | false => simp
    | true =>
      rw [← Lib.isSome_findString_iff (by decide) (by decide)]
      cases hbss : findString (cstr "bss") (img.drop q) with
      | none => simp
      | some bss =>
        cases bss with
        | true => simp
        | false =>
          -- no `bss` up to the NUL, so the search for `common` meets the NUL as well
          have hcommon : (findString (cstr "common") (img.drop q)).isSome :=
            (Lib.isSome_findString_iff (by decide) (by decide) _).mpr
              (Or.inl (Lib.zero_mem_of_findString hbss))
          simp [hcommon]

theorem isSome_sectionIsText_iff {q : ℕ} :
    (sectionIsText img q).isSome ↔ ¬ EndsWithin (img.drop (q + 16)) (cstr "__TEXT") := by
  rw [sectionIsText, EndsWithin, ← Lib.startsWith_eq_none_iff, Option.isSome_iff_ne_none]

/-- Both parsers can look at the sections if and only if these are within the image. -/
theorem looksAt_both_iff {qs : List ℕ} :
    LooksAt (sectionLetter img) 0 qs ∧ LooksAt (sectionIsText img) 0 qs ↔
      ∀ k q, qs[k]? = some q → Int32.ofNat (k + 1) < 256 → SectionInside img q := by
  rw [looksAt_iff, looksAt_iff]
  simp only [Int32.zero_add, isSome_sectionLetter_iff, isSome_sectionIsText_iff, SectionInside]
  constructor
  · rintro ⟨hletter, htext⟩ k q hk hlt
    obtain ⟨hdata, hname⟩ := hletter k q hk hlt
    exact ⟨hdata, htext k q hk hlt, hname⟩
  · intro h
    refine ⟨fun k q hk hlt => ?_, fun k q hk hlt => (h k q hk hlt).2.1⟩
    obtain ⟨hdata, -, hname⟩ := h k q hk hlt
    exact ⟨hdata, hname⟩

/-- Both parsers of a thin image stay within it if and only if it is as described. -/
theorem isSome_macho_iff (himg : base + size ≤ img.length) :
    (ksymsEmitMacho native img base size).isSome ∧ (ksymCollectMacho native img base size).isSome ↔
      MachoInside native img base size := by
  constructor
  · rintro ⟨hemit, hcollect⟩ hheader
    obtain ⟨⟨hsegs, hletters⟩, table, hsymbols⟩ := inside_of_parseMacho himg hemit hheader
    -- only the sections are needed of the second parser
    obtain ⟨⟨-, htexts⟩, -⟩ := inside_of_parseMacho himg hcollect hheader
    refine ⟨hsegs, looksAt_both_iff.mp ⟨hletters, htexts⟩, fun q hq => ?_⟩
    obtain ⟨hread, hentries⟩ := hsymbols q hq
    exact ⟨hread, fun hacc i hi =>
      (isSome_emitEntry_iff hacc himg hi table).mp (hentries hacc i hi)⟩
  · intro h
    constructor
    · refine isSome_parseMacho himg fun hheader => ?_
      obtain ⟨hsegs, hsections, hsymbols⟩ := h hheader
      refine ⟨⟨hsegs, (looksAt_both_iff.mpr hsections).1⟩, fun table q hq => ?_⟩
      obtain ⟨hread, hnames⟩ := hsymbols q hq
      exact ⟨hread, fun hacc i hi =>
        (isSome_emitEntry_iff hacc himg hi table).mpr (hnames hacc i hi)⟩
    · refine isSome_parseMacho himg fun hheader => ?_
      obtain ⟨hsegs, hsections, hsymbols⟩ := h hheader
      refine ⟨⟨hsegs, (looksAt_both_iff.mpr hsections).2⟩, fun table q hq => ?_⟩
      obtain ⟨hread, hnames⟩ := hsymbols q hq
      exact ⟨hread, fun hacc i hi =>
        isSome_collectEntry hacc himg hi table (hnames hacc i hi)⟩

end Parsing

/-! ## Universal files -/

section Universal

variable (native : UInt32) (img : List UInt8)

def archField (i off : ℕ) : ℕ := swap32 (fieldAt 4 (8 + 20 * i + off) img)

/-- Entry `i` of a universal file is within it as far as it is read, and its image is as
described by `thin` if it is for the machine. -/
def ArchInside (thin : ℕ → ℕ → Prop) (i : ℕ) : Prop :=
  8 + 20 * i + 4 ≤ img.length ∧
    (archField img i 0 = native.toNat →
      8 + 20 * i + 16 ≤ img.length ∧
        (archField img i 8 + archField img i 12 ≤ img.length →
          thin (archField img i 8) (archField img i 12)))

/-- The entries of a universal file that are read: those up to the first one for the machine. -/
def ArchsInside (thin : ℕ → ℕ → Prop) : Prop :=
  ∀ i < swap32 (fieldAt 4 4 img), (∀ j < i, archField img j 0 ≠ native.toNat) →
    ArchInside native img thin i

/-- A file: it has a magic number, unless it is empty, and is either a universal file or a thin
image as described, or something else. -/
def ImageInside (thin : ℕ → ℕ → Prop) : Prop :=
  img ≠ [] → 4 ≤ img.length ∧
    (fieldAt 4 0 img = fatMagic ∨ fieldAt 4 0 img = fatCigam →
      8 ≤ img.length ∧ ArchsInside native img thin) ∧
    (fieldAt 4 0 img = mhMagic64 → thin 0 img.length)

end Universal

section Files

variable {native : UInt32} {img : List UInt8}

/-- An iteration of the loop over the entries. -/
theorem isSome_fatLoop_succ {β : Type} {thin : ℕ → ℕ → Option (List β)} (left i : ℕ) :
    (fatLoop native img thin (left + 1) i).isSome ↔
      ArchInside native img (fun base size => (thin base size).isSome) i ∧
        (archField img i 0 ≠ native.toNat → (fatLoop native img thin left (i + 1)).isSome) := by
  rw [fatLoop, Lib.isSome_readAt_bind, ArchInside, and_assoc]
  refine and_congr_right fun _ => ?_
  rw [show swap32 (fieldAt 4 (8 + 20 * i) img) = archField img i 0 from rfl]
  by_cases hnative : archField img i 0 = native.toNat
  · rw [if_pos hnative, Lib.isSome_readAt_bind, Lib.isSome_readAt_bind,
      forall_prop_of_true hnative, and_iff_left fun hne => absurd hnative hne]
    rw [show swap32 (fieldAt 4 (8 + 20 * i + 8) img) = archField img i 8 from rfl,
      show swap32 (fieldAt 4 (8 + 20 * i + 12) img) = archField img i 12 from rfl]
    constructor
    · rintro ⟨-, hend, hthin⟩
      refine ⟨hend, fun hle => ?_⟩
      rwa [if_pos hle] at hthin
    · rintro ⟨hend, hthin⟩
      refine ⟨by omega, hend, ?_⟩
      split_ifs with hle
      · exact hthin hle
      · rfl
  · rw [if_neg hnative, and_iff_right fun h => absurd h hnative, forall_prop_of_true hnative]

theorem isSome_fatLoop_iff {β : Type} {thin : ℕ → ℕ → Option (List β)} (left i : ℕ) :
    (fatLoop native img thin left i).isSome ↔
      ∀ k < left, (∀ j < k, archField img (i + j) 0 ≠ native.toNat) →
        ArchInside native img (fun base size => (thin base size).isSome) (i + k) := by
  induction left generalizing i with
  | zero => simp [fatLoop]
  | succ left ih =>
    -- the entry at `i` is the first, and those behind it have numbers one higher
    have hshift : ∀ k, i + 1 + k = i + (k + 1) := fun k => by omega
    rw [isSome_fatLoop_succ, ih]
    simp only [hshift]
    constructor
    · rintro ⟨hfirst, hrest⟩ k hk hbefore
      cases k with
      | zero => exact hfirst
      | succ k =>
        refine hrest (hbefore 0 (Nat.succ_pos k)) k (Nat.lt_of_succ_lt_succ hk) fun j hj => ?_
        exact hbefore (j + 1) (Nat.succ_lt_succ hj)
    · intro h
      refine ⟨h 0 (Nat.succ_pos left) fun j hj => absurd hj (Nat.not_lt_zero j),
        fun hne k hk hbefore => ?_⟩
      refine h (k + 1) (Nat.succ_lt_succ hk) fun j hj => ?_
      cases j with
      | zero => exact hne
      | succ j => exact hbefore j (Nat.lt_of_succ_lt_succ hj)

theorem isSome_parseImage_iff {β : Type} {thin : ℕ → ℕ → Option (List β)} :
    (parseImage native img thin).isSome ↔
      ImageInside native img fun base size => (thin base size).isSome := by
  rw [parseImage, ImageInside]
  by_cases hempty : img = []
  · rw [if_pos hempty]
    exact iff_of_true rfl fun h => absurd hempty h
  rw [if_neg hempty, forall_prop_of_true hempty, Lib.isSome_readAt_bind, Nat.zero_add]
  refine and_congr_right fun _ => ?_
  by_cases hfat : fieldAt 4 0 img = fatMagic ∨ fieldAt 4 0 img = fatCigam
  · have hthin : fieldAt 4 0 img ≠ mhMagic64 := by
      rcases hfat with h | h <;> rw [h] <;> decide
    have hloop := @isSome_fatLoop_iff native img β thin (swap32 (fieldAt 4 4 img)) 0
    simp only [Nat.zero_add] at hloop
    rw [if_pos hfat, forall_prop_of_true hfat, Lib.isSome_readAt_bind, hloop,
      and_iff_left fun h => absurd h hthin]
    rfl
  · rw [if_neg hfat, and_iff_right fun h => absurd h hfat]
    split_ifs with hthin
    · rw [forall_prop_of_true hthin]
    · exact iff_of_true rfl fun h => absurd h hthin

/-- Only images within the file are parsed. -/
theorem ImageInside.mono {P Q : ℕ → ℕ → Prop} (h : ImageInside native img P)
    (hPQ : ∀ base size, base + size ≤ img.length → P base size → Q base size) :
    ImageInside native img Q := by
  intro hempty
  obtain ⟨hmagic, hfat, hthin⟩ := h hempty
  refine ⟨hmagic, fun hf => ⟨(hfat hf).1, fun i hi hbefore => ?_⟩, fun hm => ?_⟩
  · obtain ⟨hentry, hnative⟩ := (hfat hf).2 i hi hbefore
    exact ⟨hentry, fun heq => ⟨(hnative heq).1, fun hle => hPQ _ _ hle ((hnative heq).2 hle)⟩⟩
  · exact hPQ 0 img.length (Nat.le_of_eq (Nat.zero_add _)) (hthin hm)

/-- Two descriptions of the images hold together. -/
theorem ImageInside.and {P Q : ℕ → ℕ → Prop} (h : ImageInside native img P)
    (h' : ImageInside native img Q) :
    ImageInside native img fun base size => P base size ∧ Q base size := by
  intro hempty
  obtain ⟨hmagic, hfat, hthin⟩ := h hempty
  obtain ⟨-, hfat', hthin'⟩ := h' hempty
  refine ⟨hmagic, fun hf => ⟨(hfat hf).1, fun i hi hbefore => ?_⟩, fun hm => ⟨hthin hm, hthin' hm⟩⟩
  obtain ⟨hentry, hnative⟩ := (hfat hf).2 i hi hbefore
  obtain ⟨-, hnative'⟩ := (hfat' hf).2 i hi hbefore
  exact ⟨hentry, fun heq => ⟨(hnative heq).1,
    fun hle => ⟨(hnative heq).2 hle, (hnative' heq).2 hle⟩⟩⟩

/-- The symbol parsers stay within the file if and only if every load command, section, symbol
table and name that they read does. -/
theorem symbolParsers_inside_iff (native : UInt32) (img : List UInt8) :
    (ksymsEmitKernel native img).isSome ∧ (ksymTableBuild native img).isSome ↔
      ImageInside native img (MachoInside native img) := by
  rw [ksymsEmitKernel, ksymTableBuild, isSome_parseImage_iff, isSome_parseImage_iff]
  constructor
  · rintro ⟨hemit, hcollect⟩
    exact (hemit.and hcollect).mono fun base size himg => (isSome_macho_iff himg).mp
  · intro h
    exact ⟨h.mono fun base size himg hinside => ((isSome_macho_iff himg).mpr hinside).1,
      h.mono fun base size himg hinside => ((isSome_macho_iff himg).mpr hinside).2⟩

/-- A thin image with one load command, a segment of 8 bytes: its number of sections would be
behind the end. -/
def shortSegment : List UInt8 :=
  [0xcf, 0xfa, 0xed, 0xfe, 0x0c, 0, 0, 1, 0, 0, 0, 0, 2, 0, 0, 0, 1, 0, 0, 0, 8, 0, 0, 0,
    0, 0, 0, 0, 0, 0, 0, 0, 0x19, 0, 0, 0, 8, 0, 0, 0]

theorem ksymsEmitKernel_shortSegment :
    ¬ ((ksymsEmitKernel 0x0100000c shortSegment).isSome ∧
      (ksymTableBuild 0x0100000c shortSegment).isSome) := by
  decide

end Files

end ProcFS.Data.Macho
