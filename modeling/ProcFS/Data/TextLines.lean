import ProcFS.Data.MachoText

/-!
# ProcFS.Data.TextLines — the symbols that are kept and those that are printed

The daemon goes through the symbols of the kernel image in two functions: `ksyms_emit_macho` prints
a line for each, and `ksym_collect_macho` keeps those in text sections, to look up addresses. Each
has its own table of the sections, and they test the same things in another order.

* `collectEntry_eq`: what is kept for an entry.
* `WellFormed.inside`: both parsers stay within a well-formed image.
* `ksymCollectMacho_lines`: the symbols that are kept are those of the lines for text.
-/

namespace ProcFS.Data.Macho

open Lib (fieldAt readAt startsWith findString stringIn gather untilNul)

/-! ## The lines of an image -/

/-- A line, and the symbol it is for. -/
structure Line where
  sym : Nlist
  type : UInt8
  name : CString
deriving DecidableEq, Repr

def Line.text (l : Line) : List UInt8 := symbolLine l.sym.nValue l.type l.name

/-- The line of a symbol, unless it is skipped. -/
def lineOf (secs : List Section) (strs : List UInt8) (strsize : ℕ) (n : Nlist) : Option Line :=
  if n.nType &&& 0xe0 ≠ 0 then none
  else if n.nStrx = 0 ∨ strsize ≤ n.nStrx.toNat then none
  else
    let name := untilNul (strs.drop n.nStrx.toNat)
    if name = [] then none else (symbolType secs n).map fun type => ⟨n, type, name⟩

theorem emitSymbol_eq_lineOf (secs : List Section) (strs : List UInt8) (strsize : ℕ) (n : Nlist) :
    emitSymbol secs strs strsize n = (lineOf secs strs strsize n).elim [] Line.text := by
  simp only [emitSymbol, lineOf]
  split_ifs
  · rfl
  · rfl
  · rfl
  · cases symbolType secs n with
    | none => rfl
    | some type => rfl

section Lines

variable (img : List UInt8) (base size : ℕ)

def sectionList : List Section := (sectionsIn img base size).map (sectionAt img)

def linesOf : List Line :=
  (symtabIn img base size).elim [] fun t =>
    (List.range t.nsyms).filterMap fun i =>
      lineOf (sectionList img base size) (img.drop (base + t.stroff)) t.strsize
        (nlistAt img base t i)

variable {img base size}

theorem flatMap_elim {α β γ : Type} (xs : List α) (f : α → Option β) (g : β → List γ) :
    (xs.flatMap fun x => (f x).elim [] g) = (xs.filterMap f).flatMap g := by
  induction xs with
  | nil => rfl
  | cons x xs ih =>
    rw [List.flatMap_cons, ih, List.filterMap_cons]
    cases f x with
    | none => rfl
    | some y => rfl

theorem textOf_eq_lines : textOf img base size = (linesOf img base size).flatMap Line.text := by
  rw [textOf, linesOf]
  cases symtabIn img base size with
  | none => rfl
  | some t =>
    rw [Option.elim_some, Option.elim_some, symbolsText, List.flatMap_map, ← flatMap_elim]
    simp only [emitSymbol_eq_lineOf]
    rfl

end Lines

/-! ## Symbols in text sections -/

/-- The section with a number is there, and the name of its segment begins with `__TEXT`. -/
def inTextSection (secs : List Section) (nSect : UInt8) : Bool :=
  if nSect = 0 then false
  else secs[nSect.toNat - 1]?.elim false fun s => (cstr "__TEXT").isPrefixOf s.segname

/-- The symbol is defined in a section of `__TEXT`. -/
def inText (secs : List Section) (n : Nlist) : Bool :=
  n.nType &&& 0x0e == 0x0e && inTextSection secs n.nSect

/-- A section of `__TEXT` is none of `__DATA`. -/
theorem letter_of_text {s : Section} (h : cstr "__TEXT" <+: s.segname) : s.letter = 116 := by
  have hdata : ¬ cstr "__DATA" <+: s.segname := by
    intro hdata
    have heq := List.prefix_of_prefix_length_le h hdata (by decide)
    exact absurd heq (by decide)
  rw [Section.letter, if_neg hdata]

theorem sectionType_of_text {secs : List Section} {nSect : UInt8}
    (h : inTextSection secs nSect = true) : sectionType secs nSect = 116 := by
  rw [inTextSection] at h
  rw [sectionType]
  split_ifs at h ⊢
  cases hs : secs[nSect.toNat - 1]? with
  | none => rfl
  | some s =>
    rw [hs] at h
    exact letter_of_text (List.isPrefixOf_iff_prefix.mp h)

/-- A symbol in a section of `__TEXT` has the letter of text, in one case or the other. -/
theorem symbolType_of_text {secs : List Section} {n : Nlist} (h : inText secs n = true) :
    ∃ type, symbolType secs n = some type ∧ (type = 116 ∨ type = 84) := by
  rw [inText, Bool.and_eq_true, beq_iff_eq] at h
  rw [symbolType_eq, sectionType_of_text h.2]
  simp only [typeLetter, h.1]
  by_cases hext : n.nType &&& 0x01 = 0
  · exact ⟨116, by simp [hext], Or.inl rfl⟩
  · exact ⟨84, by simp [hext], Or.inr rfl⟩

/-- The entry that is kept for a symbol. -/
def entryOf (secs : List Section) (strs : List UInt8) (strsize : ℕ) (n : Nlist) : List KsymEnt :=
  if inText secs n then
    (lineOf secs strs strsize n).elim [] fun l => [⟨l.sym.nValue, strlcpy96 l.name⟩]
  else []

section Collecting

variable {img : List UInt8}

theorem sectionIsText_eq {q : ℕ} {text : Bool} (h : sectionIsText img q = some text) :
    text = (cstr "__TEXT").isPrefixOf (sectionAt img q).segname := by
  rw [Bool.eq_iff_iff, List.isPrefixOf_iff_prefix, sectionAt, Lib.prefix_untilNul_iff (by decide),
    ← Lib.startsWith_eq_true_iff]
  rw [sectionIsText] at h
  rw [h, Option.some.injEq]

/-- The table of the text sections. -/
theorem getD_isText {qs : List ℕ} (hlooks : LooksAt (sectionIsText img) 0 qs) {n : ℕ}
    (hn : n < 256) :
    (tableOf (sectionIsText img) false qs).getD n false =
      inTextSection (qs.map (sectionAt img)) (UInt8.ofNat n) := by
  rw [getD_tableOf (fun q text => sectionIsText_eq) hlooks hn, inTextSection, List.getElem?_map,
    Option.elim_map]
  rfl

/-- What is kept for an entry is what is kept for the symbol. -/
theorem collectEntry_eq {base i : ℕ} {t : Symtab} {table : List Bool} {out : List KsymEnt}
    {secs : List Section}
    (htable : ∀ n < 256, table.getD n false = inTextSection secs (UInt8.ofNat n))
    (h : collectEntry img base t table i = some out) :
    out = entryOf secs (img.drop (base + t.stroff)) t.strsize (nlistAt img base t i) := by
  simp only [collectEntry] at h
  simp only [entryOf, inText, lineOf, nlistAt, List.drop_drop]
  generalize entryAt base t i = n at h ⊢
  obtain ⟨-, h⟩ := Lib.readAt_bind_eq_some_iff.mp h
  generalize UInt8.ofNat (fieldAt 1 (n + 4) img) = nType at h ⊢
  -- debugging symbols and symbols of no section
  by_cases hskip : nType &&& 0xe0 ≠ 0 ∨ nType &&& 0x0e ≠ 0x0e
  · rw [if_pos hskip] at h
    obtain rfl := Option.some.inj h
    rcases hskip with hstab | hsect
    · simp [hstab]
    · simp [hsect]
  rw [if_neg hskip] at h
  rw [not_or, not_not, not_not] at hskip
  obtain ⟨-, h⟩ := Lib.readAt_bind_eq_some_iff.mp h
  rw [htable _ (Lib.fieldAt_lt 1 (n + 5) img)] at h
  generalize UInt8.ofNat (fieldAt 1 (n + 5) img) = nSect at h ⊢
  -- symbols of other sections: the table has what the list of sections says
  cases htext : inTextSection secs nSect with
  | false =>
    rw [htext] at h
    obtain rfl := Option.some.inj h
    simp
  | true =>
    rw [htext, if_neg (by decide)] at h
    obtain ⟨-, h⟩ := Lib.readAt_bind_eq_some_iff.mp h
    simp only [strx_eq_zero_iff, toNat_strx, hskip, beq_self_eq_true, Bool.and_self, if_true]
    rw [if_neg (not_not.mpr rfl)]
    -- no name, or one behind the end of the string table
    by_cases hstrx : fieldAt 4 n img = 0 ∨ t.strsize ≤ fieldAt 4 n img
    · rw [if_pos hstrx] at h ⊢
      exact (Option.some.inj h).symm
    rw [if_neg hstrx] at h ⊢
    obtain ⟨hend, h⟩ := Lib.readAt_bind_eq_some_iff.mp h
    simp only [untilNul_drop_eq_nil_iff hend]
    -- an empty name
    by_cases hc : fieldAt 1 (base + t.stroff + fieldAt 4 n img) img = 0
    · rw [if_pos hc] at h ⊢
      exact (Option.some.inj h).symm
    rw [if_neg hc] at h ⊢
    obtain ⟨-, h⟩ := Lib.readAt_bind_eq_some_iff.mp h
    obtain ⟨name, hname, rfl⟩ := Option.map_eq_some_iff.mp h
    obtain ⟨type, htype, -⟩ := @symbolType_of_text secs
      ⟨UInt32.ofNat (fieldAt 4 n img), nType, nSect, UInt64.ofNat (fieldAt 8 (n + 8) img)⟩
      (by simp [inText, hskip.2, htext])
    rw [htype, Lib.eq_untilNul_of_stringIn hname]
    rfl

end Collecting

/-- What is kept for a line. -/
def Line.entry (l : Line) : KsymEnt := ⟨l.sym.nValue, strlcpy96 l.name⟩

theorem lineOf_eq_some {secs : List Section} {strs : List UInt8} {strsize : ℕ} {n : Nlist}
    {l : Line}
    (h : lineOf secs strs strsize n = some l) :
    l.sym = n ∧ l.name = untilNul (strs.drop n.nStrx.toNat) ∧ symbolType secs n = some l.type := by
  simp only [lineOf] at h
  split_ifs at h
  obtain ⟨type, htype, rfl⟩ := Option.map_eq_some_iff.mp h
  exact ⟨rfl, rfl, htype⟩

/-- The entries of some symbols are those of their lines that are for text. -/
theorem flatMap_entryOf (secs : List Section) (strs : List UInt8) (strsize : ℕ)
    (syms : List Nlist) :
    syms.flatMap (entryOf secs strs strsize) =
      ((syms.filterMap (lineOf secs strs strsize)).filter fun l => inText secs l.sym).map
        Line.entry := by
  induction syms with
  | nil => rfl
  | cons n syms ih =>
    rw [List.flatMap_cons, ih, List.filterMap_cons, entryOf]
    cases hline : lineOf secs strs strsize n with
    | none => simp
    | some l =>
      obtain ⟨rfl, -⟩ := lineOf_eq_some hline
      cases htext : inText secs l.sym with
      | false => simp [htext]
      | true => simp [htext, Line.entry]

section Kept

variable {native : UInt32} {img : List UInt8} {base size : ℕ}

/-- An image that is parsed within its bounds: what is kept. -/
theorem ksymCollectMacho_eq {entries : List KsymEnt} (himg : base + size ≤ img.length)
    (hheader : HeaderOk native img base size) (hfew : (sectionsIn img base size).length < 2 ^ 31)
    (h : ksymCollectMacho native img base size = some entries) :
    entries = ((linesOf img base size).filter fun l =>
      inText (sectionList img base size) l.sym).map Line.entry := by
  obtain ⟨hlooks, ⟨rfl, hnone⟩ | ⟨t, ht, hgather⟩⟩ := parseMacho_eq himg hheader hfew h
  · rw [linesOf, hnone]
    rfl
  · have hentries := Lib.eq_flatMap_of_gather
      (fun i _ out hout => collectEntry_eq (fun n hn => getD_isText hlooks hn) hout) hgather
    rw [hentries, linesOf, ht, Option.elim_some, ← List.flatMap_map, flatMap_entryOf,
      List.filterMap_map]
    rfl

/-- The line of a symbol in text has the letter of text, and what is kept of its name are its first
95 characters. -/
theorem line_of_text {l : Line} (hl : l ∈ linesOf img base size)
    (htext : inText (sectionList img base size) l.sym = true) :
    (l.type = 116 ∨ l.type = 84) ∧ l.entry.name.val = l.name.take 95 := by
  rw [linesOf] at hl
  cases ht : symtabIn img base size with
  | none =>
    rw [ht] at hl
    cases hl
  | some t =>
    rw [ht] at hl
    obtain ⟨i, -, hline⟩ := List.mem_filterMap.mp hl
    obtain ⟨hsym, hname, htype⟩ := lineOf_eq_some hline
    refine ⟨?_, ?_⟩
    · obtain ⟨type, htype', hletter⟩ := symbolType_of_text htext
      rw [← hsym, htype', Option.some.injEq] at htype
      rwa [← htype]
    · have hnul : 0 ∉ l.name := hname ▸ Lib.zero_notMem_untilNul _
      show (untilNul l.name).take 95 = l.name.take 95
      rw [Lib.untilNul_of_notMem hnul]

end Kept

/-! ## Well-formed images -/

section Format

variable (native : UInt32) (img : List UInt8) (base size : ℕ)

/-- Load commands one behind the other, up to `stop`: each of them has its fields, and a segment
has its sections. -/
def CommandsFit (stop : ℕ) : ℕ → ℕ → Prop
  | 0, p => p ≤ stop
  | left + 1, p =>
    8 ≤ fieldAt 4 (p + 4) img ∧ p + fieldAt 4 (p + 4) img ≤ stop ∧
      (fieldAt 4 p img = lcSegment64 → 72 + 80 * fieldAt 4 (p + 64) img ≤ fieldAt 4 (p + 4) img) ∧
      (fieldAt 4 p img = lcSymtab → 24 ≤ fieldAt 4 (p + 4) img) ∧
      CommandsFit stop left (p + fieldAt 4 (p + 4) img)

/-- A thin image for the machine: its load commands are the `sizeofcmds` bytes behind the header,
the symbol table and the strings are within the image, and all names end. -/
structure WellFormed : Prop where
  inFile : base + size ≤ img.length
  header : HeaderOk native img base size
  commands_le : 32 + fieldAt 4 (base + 20) img ≤ size
  commands : CommandsFit img (base + 32 + fieldAt 4 (base + 20) img) (fieldAt 4 (base + 16) img)
    (base + 32)
  sectionNames : ∀ q ∈ sectionsIn img base size, 0 ∈ img.drop q
  symbols_le : ∀ q, lastSymtab img (loadCommands img base size) = some q →
    (symtabAt img q).symoff + (symtabAt img q).nsyms * 16 ≤ size
  strings_le : ∀ q, lastSymtab img (loadCommands img base size) = some q →
    (symtabAt img q).stroff + (symtabAt img q).strsize ≤ size
  symbolNames : ∀ q, lastSymtab img (loadCommands img base size) = some q →
    ∀ i < (symtabAt img q).nsyms,
      fieldAt 4 (entryAt base (symtabAt img q) i) img < (symtabAt img q).strsize →
        0 ∈ img.drop (nameOff img base (symtabAt img q) i)

end Format

section Bounds

variable {native : UInt32} {img : List UInt8} {base size stop : ℕ}

/-- Every load command that is looked at has its fields. -/
theorem fits_of_mem_commandsAt {stop' left p c : ℕ} (h : CommandsFit img stop left p)
    (hc : c ∈ commandsAt img stop' left p) :
    (fieldAt 4 c img = lcSegment64 → c + 72 + 80 * fieldAt 4 (c + 64) img ≤ stop) ∧
      (fieldAt 4 c img = lcSymtab → c + 24 ≤ stop) := by
  induction left generalizing p with
  | zero => cases hc
  | succ left ih =>
    obtain ⟨-, hstop, hseg, hsym, hrest⟩ := h
    rw [commandsAt] at hc
    split_ifs at hc
    · cases hc
    · cases hc
    rcases List.mem_cons.mp hc with rfl | hc
    · refine ⟨fun heq => ?_, fun heq => ?_⟩
      · have hfit := hseg heq
        omega
      · have hfit := hsym heq
        omega
    · exact ih hrest hc

/-- The sections are within the load commands. -/
theorem length_sections_le {stop' left p : ℕ} (h : CommandsFit img stop left p) :
    p + 80 * ((commandsAt img stop' left p).flatMap (sectionsOf img)).length ≤ stop := by
  induction left generalizing p with
  | zero => exact h
  | succ left ih =>
    obtain ⟨hpos, hstop, hseg, -, hrest⟩ := h
    have hle := ih hrest
    rw [commandsAt]
    split_ifs
    · simp only [List.flatMap_nil, List.length_nil]
      omega
    · simp only [List.flatMap_nil, List.length_nil]
      omega
    · rw [List.flatMap_cons, List.length_append]
      by_cases heq : fieldAt 4 p img = lcSegment64
      · have hfit := hseg heq
        rw [length_sectionsOf heq]
        omega
      · have hnone : sectionsOf img p = [] := if_neg heq
        rw [hnone, List.length_nil]
        omega

/-- A part of the image that is longer than a string does not end within it. -/
theorem not_endsWithin {off : ℕ} {s : List UInt8} (h : off + s.length ≤ img.length) :
    ¬ EndsWithin (img.drop off) s := by
  rintro ⟨hle, hne⟩
  refine hne (hle.eq_of_length_le ?_)
  rw [List.length_drop]
  omega

theorem mem_of_lastSymtab {cmds : List ℕ} {q : ℕ} (h : lastSymtab img cmds = some q) :
    q ∈ cmds ∧ fieldAt 4 q img = lcSymtab := by
  have hmem := List.mem_of_getLast? h
  rw [List.mem_filter, decide_eq_true_eq] at hmem
  exact hmem

namespace WellFormed

variable (h : WellFormed native img base size)

include h

/-- A section is within the load commands. -/
theorem section_le {q : ℕ} (hq : q ∈ sectionsIn img base size) : q + 80 ≤ img.length := by
  obtain ⟨c, hc, hq⟩ := List.mem_flatMap.mp hq
  have hfit := (fits_of_mem_commandsAt h.commands hc).1
  have hcmds := h.commands_le
  have hfile := h.inFile
  rw [sectionsOf] at hq
  split_ifs at hq with hseg
  · have hstop := hfit hseg
    obtain ⟨s, hs, rfl⟩ := List.mem_map.mp hq
    rw [List.mem_range'_1] at hs
    omega
  · cases hq

theorem length_sectionsIn_lt : (sectionsIn img base size).length < 2 ^ 31 := by
  have hlt : fieldAt 4 (base + 20) img < 256 ^ 4 := Lib.fieldAt_lt 4 (base + 20) img
  have hle := @length_sections_le img _ (base + size) _ _ h.commands
  rw [sectionsIn, loadCommands]
  omega

/-- Both parsers stay within the image. -/
theorem inside : MachoInside native img base size := by
  have hcmds := h.commands_le
  have hfile := h.inFile
  intro _
  refine ⟨fun c hc hseg => ?_, fun k q hk _ => ?_, fun q hq => ⟨?_, fun hacc i hi hlisted => ?_⟩⟩
  · have hfit := (fits_of_mem_commandsAt h.commands hc).1 hseg
    omega
  · have hmem : q ∈ sectionsIn img base size := List.mem_of_getElem? hk
    have hle := h.section_le hmem
    refine ⟨not_endsWithin ?_, not_endsWithin ?_, fun _ => Or.inl (h.sectionNames q hmem)⟩
    · show q + 16 + 6 ≤ img.length
      omega
    · show q + 16 + 6 ≤ img.length
      omega
  · obtain ⟨hmem, hsym⟩ := mem_of_lastSymtab hq
    have hfit := (fits_of_mem_commandsAt h.commands hmem).2 hsym
    exact ⟨by omega, Or.inr (Or.inr (by omega))⟩
  · exact h.symbolNames q hq i hi hlisted.2.2.2.2

end WellFormed

end Bounds

/-- For every well-formed image the entries that `ksym_collect_macho` collects are those of the
lines of `ksyms_emit_macho` whose symbol is in a section of `__TEXT`: their addresses and the first
95 characters of their names, in the order of the lines. Each of these lines has the letter `t` or
`T`. -/
theorem ksymCollectMacho_lines {native : UInt32} {img : List UInt8} {base size : ℕ}
    (h : WellFormed native img base size) :
    ksymsEmitMacho native img base size = some ((linesOf img base size).flatMap Line.text) ∧
    (∃ entries, ksymCollectMacho native img base size = some entries ∧
      entries.map (fun e => (e.val, e.name.val)) =
        ((linesOf img base size).filter fun l => inText (sectionList img base size) l.sym).map
          fun l => (l.sym.nValue, l.name.take 95)) ∧
    ∀ l ∈ linesOf img base size, inText (sectionList img base size) l.sym = true →
      l.type = 116 ∨ l.type = 84 := by
  obtain ⟨hemit, hcollect⟩ := (isSome_macho_iff h.inFile).mpr h.inside
  obtain ⟨text, htext⟩ := Option.isSome_iff_exists.mp hemit
  obtain ⟨entries, hentries⟩ := Option.isSome_iff_exists.mp hcollect
  refine ⟨?_, ⟨entries, hentries, ?_⟩, fun l hl hin => (line_of_text hl hin).1⟩
  · rw [htext, ksymsEmitMacho_eq_textOf h.inFile h.header h.length_sectionsIn_lt htext,
      textOf_eq_lines]
  · rw [ksymCollectMacho_eq h.inFile h.header h.length_sectionsIn_lt hentries, List.map_map]
    refine List.map_congr_left fun l hl => ?_
    obtain ⟨hmem, hin⟩ := List.mem_filter.mp hl
    exact Prod.ext rfl (line_of_text hmem hin).2

/-- An image with one segment, of one section, and two symbols: `_a` in the section, and `_b` with
an absolute value. -/
def twoSymbolImage : List UInt8 :=
  -- the header
  Lib.leBytes 4 mhMagic64 ++ Lib.leBytes 4 0x0100000c ++ Lib.leBytes 8 0 ++ Lib.leBytes 4 2 ++
    Lib.leBytes 4 176 ++ Lib.leBytes 8 0 ++
  -- the segment and its section
  Lib.leBytes 4 lcSegment64 ++ Lib.leBytes 4 152 ++ Lib.leBytes 56 0 ++ Lib.leBytes 4 1 ++
    Lib.leBytes 4 0 ++ cstr "__text" ++ Lib.leBytes 10 0 ++ cstr "__TEXT" ++ Lib.leBytes 58 0 ++
  -- the symbol table
  Lib.leBytes 4 lcSymtab ++ Lib.leBytes 4 24 ++ Lib.leBytes 4 208 ++ Lib.leBytes 4 2 ++
    Lib.leBytes 4 240 ++ Lib.leBytes 4 7 ++
  -- the symbols and their names
  Lib.leBytes 4 1 ++ [0x0f, 1, 0, 0] ++ Lib.leBytes 8 0x1000 ++
    Lib.leBytes 4 4 ++ [0x03, 0, 0, 0] ++ Lib.leBytes 8 7 ++
    [0] ++ cstr "_a" ++ [0] ++ cstr "_b" ++ [0]

theorem lastSymtab_twoSymbolImage :
    lastSymtab twoSymbolImage (loadCommands twoSymbolImage 0 247) = some 184 := by decide +kernel

theorem wellFormed_twoSymbolImage : WellFormed 0x0100000c twoSymbolImage 0 247 where
  inFile := by decide +kernel
  header := ⟨by decide, by decide +kernel, by decide +kernel⟩
  commands_le := by decide +kernel
  commands := by
    have hncmds : fieldAt 4 (0 + 16) twoSymbolImage = 2 := by decide +kernel
    rw [hncmds]
    simp only [CommandsFit]
    decide +kernel
  sectionNames := by decide +kernel
  symbols_le := by
    intro q hq
    obtain rfl := Option.some.inj (hq.symm.trans lastSymtab_twoSymbolImage)
    decide +kernel
  strings_le := by
    intro q hq
    obtain rfl := Option.some.inj (hq.symm.trans lastSymtab_twoSymbolImage)
    decide +kernel
  symbolNames := by
    intro q hq
    obtain rfl := Option.some.inj (hq.symm.trans lastSymtab_twoSymbolImage)
    decide +kernel

/-- Of the two symbols one is kept. -/
theorem ksymCollectMacho_lines_two :
    WellFormed 0x0100000c twoSymbolImage 0 247 ∧
    (ksymsEmitMacho 0x0100000c twoSymbolImage 0 247 =
      some (cstr "0000000000001000 T _a\n0000000000000007 A _b\n")) ∧
    ∃ entries, ksymCollectMacho 0x0100000c twoSymbolImage 0 247 = some entries ∧
      entries.map (fun e => (e.val, e.name.val)) = [(0x1000, cstr "_a")] := by
  refine ⟨wellFormed_twoSymbolImage, ?_, ?_⟩
  · rw [(ksymCollectMacho_lines wellFormed_twoSymbolImage).1]
    decide +kernel
  · obtain ⟨entries, hentries, hmap⟩ := (ksymCollectMacho_lines wellFormed_twoSymbolImage).2.1
    refine ⟨entries, hentries, hmap.trans ?_⟩
    decide +kernel

end ProcFS.Data.Macho
