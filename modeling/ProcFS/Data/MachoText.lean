import ProcFS.Data.Macho

/-!
# ProcFS.Data.MachoText — what is printed for an image

`Macho` is about where the parsers read, `Symtab` about the text that is printed for a list of
sections and a list of symbols. Here the two are put together.

The table of the section letters is filled while the load commands are gone through, so what
carries the argument is what the table holds after some sections (`Recorded`).

* `ksymsEmitMacho_eq_textOf`: an image is printed as its sections and symbols.
* `readSymtab_of_image`: from the image to a reader who is not root, no address comes through.
-/

namespace ProcFS.Data.Macho

open Lib (fieldAt readAt startsWith findString stringIn gather untilNul)

/-! ## The table of the sections -/

section Sections

variable {τ : Type}

/-- The table after the sections `qs`: they are numbered from 1, and there is no room for more than
255 of them. -/
def tableOf (look : ℕ → Option τ) (unset : τ) (qs : List ℕ) : List τ :=
  (List.range 256).map fun j => if j = 0 then unset else (qs[j - 1]?.bind look).getD unset

/-- The sections `qs` have been counted and are in the table. -/
structure Recorded (look : ℕ → Option τ) (unset : τ) (qs : List ℕ) (f : Found τ) : Prop where
  count : f.nsect = Int32.ofNat qs.length
  table : f.table = tableOf look unset qs

variable {look : ℕ → Option τ} {unset : τ} {qs : List ℕ} {q : ℕ}

theorem tableOf_nil : tableOf look unset [] = List.replicate 256 unset := by
  rw [List.eq_replicate_iff]
  refine ⟨by rw [tableOf, List.length_map, List.length_range], fun t ht => ?_⟩
  obtain ⟨j, -, rfl⟩ := List.mem_map.mp ht
  simp

/-- Recording a section there is room for. -/
theorem tableOf_concat {t : τ} (hlook : look q = some t) :
    tableOf look unset (qs ++ [q]) = (tableOf look unset qs).set (qs.length + 1) t := by
  refine List.ext_getElem? fun j => ?_
  rw [List.getElem?_set, tableOf, tableOf, List.getElem?_map, List.getElem?_map, List.length_map,
    List.length_range]
  by_cases hj : j < 256
  swap
  · have hnone : (List.range 256)[j]? = none := by simp [hj]
    rw [hnone]
    split_ifs with heq hlt
    · exact absurd (heq ▸ hlt) hj
    · rfl
    · rfl
  rw [List.getElem?_range hj]
  -- the places before the new section, its own, and those behind it
  rcases Nat.lt_trichotomy j (qs.length + 1) with hlt | rfl | hgt
  · rw [if_neg (by omega)]
    by_cases hzero : j = 0
    · simp [hzero]
    · simp [hzero, List.getElem?_append_left (by omega : j - 1 < qs.length)]
  · simp [hj, hlook]
  · have hlen : (qs ++ [q]).length ≤ j - 1 := by
      rw [List.length_append, List.length_singleton]
      omega
    have hold : qs[j - 1]? = none := List.getElem?_eq_none (by omega)
    rw [if_neg (by omega), Option.map_some, Option.map_some, List.getElem?_eq_none hlen, hold]

/-- A section there is no room for changes nothing. -/
theorem tableOf_concat_of_le (h : 255 ≤ qs.length) :
    tableOf look unset (qs ++ [q]) = tableOf look unset qs := by
  refine List.map_congr_left fun j hj => ?_
  rw [List.mem_range] at hj
  by_cases hzero : j = 0
  · simp [hzero]
  · rw [List.getElem?_append_left (by omega)]

/-- A count below `2 ^ 31` is not wrapped around. -/
theorem ofNat_lt_iff {n : ℕ} (h : n < 2 ^ 31) : Int32.ofNat n < 256 ↔ n < 256 :=
  Int32.ofNat_lt_iff_lt h (by decide)

/-- The loop over the sections records them. -/
theorem sectionLoop_recorded {sec left s : ℕ} {f f' : Found τ} (hrec : Recorded look unset qs f)
    (hfew : qs.length + left < 2 ^ 31) (hloop : sectionLoop look sec left s f = some f') :
    Recorded look unset (qs ++ (List.range' s left).map fun s => sec + 80 * s) f' := by
  induction left generalizing s qs f with
  | zero =>
    obtain rfl := Option.some.inj hloop
    simpa using hrec
  | succ left ih =>
    have hcount : f.nsect + 1 = Int32.ofNat (qs.length + 1) := by
      rw [hrec.count, Int32.ofNat_add]
      rfl
    rw [List.range'_succ, List.map_cons, List.append_cons]
    simp only [sectionLoop, hcount] at hloop
    have hlen : (qs ++ [sec + 80 * s]).length = qs.length + 1 := by simp
    split_ifs at hloop with hlt
    · obtain ⟨t, hlook, hloop⟩ := Option.bind_eq_some_iff.mp hloop
      refine ih ⟨?_, ?_⟩ (by omega) hloop
      · rw [hlen]
      · rw [tableOf_concat hlook, hrec.table, Int32.toNatClampNeg_ofNat_of_lt (by omega)]
    · rw [ofNat_lt_iff (by omega)] at hlt
      refine ih ⟨?_, ?_⟩ (by omega) hloop
      · rw [hlen]
      · rw [tableOf_concat_of_le (by omega), hrec.table]

/-- A load command. -/
theorem command_recorded {img : List UInt8} {p : ℕ} {f f' : Found τ}
    (hrec : Recorded look unset qs f) (hfew : qs.length + (sectionsOf img p).length < 2 ^ 31)
    (hcommand : command img look p f = some f') :
    Recorded look unset (qs ++ sectionsOf img p) f' := by
  rw [command] at hcommand
  obtain ⟨-, hcommand⟩ := Lib.readAt_bind_eq_some_iff.mp hcommand
  by_cases hseg : fieldAt 4 p img = lcSegment64
  · rw [length_sectionsOf hseg] at hfew
    rw [if_neg (by rw [hseg]; decide), if_pos hseg] at hcommand
    obtain ⟨-, hloop⟩ := Lib.readAt_bind_eq_some_iff.mp hcommand
    rw [sectionsOf, if_pos hseg]
    exact sectionLoop_recorded hrec hfew hloop
  · rw [sectionsOf, if_neg hseg, List.append_nil]
    rw [if_neg hseg] at hcommand
    split_ifs at hcommand
    · obtain rfl := Option.some.inj hcommand
      exact ⟨hrec.count, hrec.table⟩
    · obtain rfl := Option.some.inj hcommand
      exact hrec

/-- The loop over the load commands records the sections of all of them. -/
theorem commandLoop_recorded {img : List UInt8} {stop left p : ℕ} {f f' : Found τ}
    (hrec : Recorded look unset qs f)
    (hfew : qs.length + ((commandsAt img stop left p).flatMap (sectionsOf img)).length < 2 ^ 31)
    (hloop : commandLoop img look stop left p f = some f') :
    Recorded look unset (qs ++ (commandsAt img stop left p).flatMap (sectionsOf img)) f' := by
  induction left generalizing p qs f with
  | zero =>
    obtain rfl := Option.some.inj hloop
    rwa [commandsAt, List.flatMap_nil, List.append_nil]
  | succ left ih =>
    rw [commandLoop] at hloop
    rw [commandsAt] at hfew ⊢
    split_ifs at hloop hfew ⊢ with hend hsize
    · obtain rfl := Option.some.inj hloop
      rwa [List.flatMap_nil, List.append_nil]
    all_goals
      obtain ⟨-, hloop⟩ := Lib.readAt_bind_eq_some_iff.mp hloop
    · rw [if_pos hsize] at hloop
      obtain rfl := Option.some.inj hloop
      rwa [List.flatMap_nil, List.append_nil]
    · -- a command that is looked at, and the rest of them
      rw [if_neg hsize] at hloop
      obtain ⟨g, hcommand, hloop⟩ := Option.bind_eq_some_iff.mp hloop
      rw [List.flatMap_cons, List.length_append] at hfew
      rw [List.flatMap_cons, ← List.append_assoc]
      refine ih (command_recorded hrec (by omega) hcommand) ?_ hloop
      rw [List.length_append]
      omega

/-- An entry of the table, when `g` is what the sections are. -/
theorem getD_tableOf {g : ℕ → τ} (hg : ∀ q t, look q = some t → t = g q)
    (hlooks : LooksAt look 0 qs) {n : ℕ} (hn : n < 256) :
    (tableOf look unset qs).getD n unset =
      if UInt8.ofNat n = 0 then unset else qs[(UInt8.ofNat n).toNat - 1]?.elim unset g := by
  have hbyte : UInt8.ofNat n = 0 ↔ n = 0 := by
    rw [← UInt8.toNat_inj, UInt8.toNat_ofNat_of_lt' hn]
    rfl
  rw [List.getD_eq_getElem?_getD, tableOf, List.getElem?_map, List.getElem?_range hn,
    Option.map_some, Option.getD_some, UInt8.toNat_ofNat_of_lt' hn]
  by_cases hzero : n = 0
  · rw [if_pos hzero, if_pos (hbyte.mpr hzero)]
  rw [if_neg hzero, if_neg (hbyte.not.mpr hzero)]
  cases hq : qs[n - 1]? with
  | none => rfl
  | some q =>
    have hcount : 0 + Int32.ofNat (n - 1 + 1) < 256 := by
      rw [Int32.zero_add, ofNat_lt_iff (by omega)]
      omega
    obtain ⟨t, ht⟩ := Option.isSome_iff_exists.mp (looksAt_iff.mp hlooks (n - 1) q hq hcount)
    rw [Option.bind_some, ht]
    exact hg q t ht

end Sections

/-! ## The symbols -/

section Symbols

variable {img : List UInt8}

def sectionAt (img : List UInt8) (q : ℕ) : Section :=
  ⟨untilNul (img.drop (q + 16)), untilNul (img.drop q)⟩

def nlistAt (img : List UInt8) (base : ℕ) (t : Symtab) (i : ℕ) : Nlist :=
  let n := entryAt base t i
  ⟨UInt32.ofNat (fieldAt 4 n img), UInt8.ofNat (fieldAt 1 (n + 4) img),
    UInt8.ofNat (fieldAt 1 (n + 5) img), UInt64.ofNat (fieldAt 8 (n + 8) img)⟩

theorem sectionLetter_eq {q : ℕ} {letter : UInt8} (h : sectionLetter img q = some letter) :
    letter = (sectionAt img q).letter := by
  rw [sectionLetter] at h
  obtain ⟨data, hdata, h⟩ := Option.bind_eq_some_iff.mp h
  have hseg : cstr "__DATA" <+: (sectionAt img q).segname ↔ data = true := by
    rw [sectionAt, Lib.prefix_untilNul_iff (by decide), ← Lib.startsWith_eq_true_iff, hdata,
      Option.some.injEq]
  simp only [Section.letter, hseg]
  cases data with
  | false => simpa using h.symm
  | true =>
    rw [if_pos rfl] at h ⊢
    obtain ⟨bss, hbss, h⟩ := Option.bind_eq_some_iff.mp h
    have hbss' : cstr "bss" <:+: (sectionAt img q).sectname ↔ bss = true :=
      (Lib.findString_iff (by decide) (by decide) hbss).symm
    cases bss with
    | true => simpa [hbss'] using h.symm
    | false =>
      rw [if_neg (by decide)] at h
      obtain ⟨common, hcommon, rfl⟩ := Option.map_eq_some_iff.mp h
      have hcommon' : cstr "common" <:+: (sectionAt img q).sectname ↔ common = true :=
        (Lib.findString_iff (by decide) (by decide) hcommon).symm
      simp only [hbss', hcommon', Bool.false_eq_true, false_or]

/-- The table that is filled is the one that the text is printed with. -/
theorem getD_letters {qs : List ℕ} (hlooks : LooksAt (sectionLetter img) 0 qs) {n : ℕ}
    (hn : n < 256) :
    (tableOf (sectionLetter img) 116 qs).getD n 116 =
      sectionType (qs.map (sectionAt img)) (UInt8.ofNat n) := by
  rw [getD_tableOf (fun q letter => sectionLetter_eq) hlooks hn, sectionType, List.getElem?_map,
    Option.elim_map]
  rfl

/-- Only a symbol in a section has the letter of one. -/
theorem typeLetter_congr {nType sect sect' : UInt8} (h : nType &&& 0x0e = 0x0e → sect = sect') :
    typeLetter sect nType = typeLetter sect' nType := by
  by_cases hsect : nType &&& 0x0e = 0x0e
  · rw [h hsect]
  · simp only [typeLetter, if_neg hsect]

theorem symbolType_eq (secs : List Section) (n : Nlist) :
    symbolType secs n = typeLetter (sectionType secs n.nSect) n.nType :=
  rfl

theorem untilNul_drop_eq_nil_iff {off : ℕ} (h : off < img.length) :
    untilNul (img.drop off) = [] ↔ fieldAt 1 off img = 0 := by
  rw [fieldAt, List.drop_eq_getElem_cons h, List.take_succ_cons, List.take_zero,
    Lib.leNat_eq_zero_iff, untilNul, List.takeWhile_cons]
  by_cases hzero : img[off] = 0
  · simp [hzero]
  · simp [hzero]

theorem toNat_strx (n : ℕ) : (UInt32.ofNat (fieldAt 4 n img)).toNat = fieldAt 4 n img :=
  UInt32.toNat_ofNat_of_lt' (Lib.fieldAt_lt 4 n img)

theorem strx_eq_zero_iff (n : ℕ) : UInt32.ofNat (fieldAt 4 n img) = 0 ↔ fieldAt 4 n img = 0 := by
  rw [← UInt32.toNat_inj, toNat_strx]
  rfl

/-- What is printed for an entry is what is printed for the symbol. -/
theorem emitEntry_eq {base i : ℕ} {t : Symtab} {table line : List UInt8} {secs : List Section}
    (htable : ∀ n < 256, table.getD n 116 = sectionType secs (UInt8.ofNat n))
    (h : emitEntry img base t table i = some line) :
    line = emitSymbol secs (img.drop (base + t.stroff)) t.strsize (nlistAt img base t i) := by
  simp only [emitEntry] at h
  simp only [emitSymbol, symbolType_eq, nlistAt, List.drop_drop]
  generalize entryAt base t i = n at h ⊢
  obtain ⟨-, h⟩ := Lib.readAt_bind_eq_some_iff.mp h
  generalize UInt8.ofNat (fieldAt 1 (n + 4) img) = nType at h ⊢
  -- both functions make the same tests; after each, what was read is a field of the entry
  by_cases hstab : nType &&& 0xe0 ≠ 0
  · rw [if_pos hstab] at h ⊢
    exact (Option.some.inj h).symm
  rw [if_neg hstab] at h ⊢
  obtain ⟨-, h⟩ := Lib.readAt_bind_eq_some_iff.mp h
  simp only [strx_eq_zero_iff, toNat_strx]
  generalize fieldAt 4 n img = strx at h ⊢
  by_cases hstrx : strx = 0 ∨ t.strsize ≤ strx
  · rw [if_pos hstrx] at h ⊢
    exact (Option.some.inj h).symm
  rw [if_neg hstrx] at h ⊢
  obtain ⟨hend, h⟩ := Lib.readAt_bind_eq_some_iff.mp h
  simp only [untilNul_drop_eq_nil_iff hend]
  by_cases hc : fieldAt 1 (base + t.stroff + strx) img = 0
  · rw [if_pos hc] at h ⊢
    exact (Option.some.inj h).symm
  rw [if_neg hc] at h ⊢
  obtain ⟨nSect, hsect, h⟩ := Option.bind_eq_some_iff.mp h
  -- the letter in the table is the one of the section
  have htype : typeLetter (table.getD nSect 116) nType =
      typeLetter (sectionType secs (UInt8.ofNat (fieldAt 1 (n + 5) img))) nType := by
    refine typeLetter_congr fun hin => ?_
    rw [if_pos hin] at hsect
    obtain rfl := Lib.eq_fieldAt_of_readAt hsect
    exact htable _ (Lib.fieldAt_lt 1 (n + 5) img)
  rw [htype] at h
  cases hletter : typeLetter (sectionType secs (UInt8.ofNat (fieldAt 1 (n + 5) img))) nType with
  | none =>
    rw [hletter] at h
    exact (Option.some.inj h).symm
  | some type =>
    rw [hletter] at h
    obtain ⟨-, h⟩ := Lib.readAt_bind_eq_some_iff.mp h
    obtain ⟨name, hname, rfl⟩ := Option.map_eq_some_iff.mp h
    rw [Lib.eq_untilNul_of_stringIn hname]
    rfl

end Symbols

/-! ## The text -/

section Text

variable (img : List UInt8) (base size : ℕ)

instance (t : Symtab) : Decidable (t.Accepted size) := inferInstanceAs (Decidable (_ ∧ _ ∧ _))

def sectionsIn : List ℕ := (loadCommands img base size).flatMap (sectionsOf img)

/-- The symbol table of an image, if it has one that is accepted. -/
def symtabIn : Option Symtab :=
  ((lastSymtab img (loadCommands img base size)).map (symtabAt img)).filter fun t => t.Accepted size

/-- No name in the symbol table of an image breaks its line. -/
def PlainNames : Prop :=
  ∀ t, symtabIn img base size = some t → ∀ i < t.nsyms,
    newline ∉ untilNul (img.drop (nameOff img base t i))

/-- What is printed for the sections and the symbols that an image has. -/
def textOf : List UInt8 :=
  (symtabIn img base size).elim [] fun t =>
    symbolsText ((sectionsIn img base size).map (sectionAt img))
      (img.drop (base + t.stroff)) t.strsize ((List.range t.nsyms).map (nlistAt img base t))

variable {img base size}

theorem parseSymbols_eq {τ β : Type} {entry : Symtab → List τ → ℕ → Option (List β)} {f : Found τ}
    {out : List β} (h : parseSymbols img entry size f = some out) :
    out = [] ∧ (f.st.map (symtabAt img)).filter (fun t => t.Accepted size) = none ∨
      ∃ t, (f.st.map (symtabAt img)).filter (fun t => t.Accepted size) = some t ∧
        gather (entry t f.table) (List.range t.nsyms) = some out := by
  rw [parseSymbols] at h
  cases hst : f.st with
  | none =>
    rw [hst] at h
    exact Or.inl ⟨(Option.some.inj h).symm, rfl⟩
  | some q =>
    rw [hst] at h
    obtain ⟨o, ho, h⟩ := Option.bind_eq_some_iff.mp h
    rcases (@symtabOf_spec img size q).2 o ho with ⟨hacc, rfl⟩ | ⟨hacc, rfl⟩
    · exact Or.inr ⟨symtabAt img q, by simp [hacc], h⟩
    · exact Or.inl ⟨(Option.some.inj h).symm, by simp [hacc]⟩

/-- What a parser has done that has not failed: it has looked at the sections, and gone through the
symbols with the table of all of them. -/
theorem parseMacho_eq {native : UInt32} {τ β : Type} {look : ℕ → Option τ} {unset : τ}
    {entry : Symtab → List τ → ℕ → Option (List β)} {out : List β}
    (himg : base + size ≤ img.length) (hheader : HeaderOk native img base size)
    (hfew : (sectionsIn img base size).length < 2 ^ 31)
    (h : parseMacho native img look unset entry base size = some out) :
    LooksAt look 0 (sectionsIn img base size) ∧
      (out = [] ∧ symtabIn img base size = none ∨
        ∃ t, symtabIn img base size = some t ∧
          gather (entry t (tableOf look unset (sectionsIn img base size))) (List.range t.nsyms) =
            some out) := by
  have hlooks := (inside_of_parseMacho himg (Option.isSome_iff_exists.mpr ⟨out, h⟩) hheader).1.2
  rw [parseMacho_of_headerOk himg hheader] at h
  obtain ⟨f, hloop, h⟩ := Option.bind_eq_some_iff.mp h
  have hrec : Recorded look unset ([] ++ sectionsIn img base size) f :=
    commandLoop_recorded ⟨rfl, tableOf_nil.symm⟩ (by rwa [List.length_nil, Nat.zero_add]) hloop
  have hst : f.st = lastSymtab img (loadCommands img base size) := by
    rw [(commandLoop_spec himg _ _ _).2 f hloop, Option.or_none]
    rfl
  have hsymbols := parseSymbols_eq h
  rw [hst, hrec.table, List.nil_append] at hsymbols
  exact ⟨hlooks, hsymbols⟩

/-- An image that is parsed within its bounds, with fewer than `2 ^ 31` sections, is printed as the
sections and the symbols that it has. -/
theorem ksymsEmitMacho_eq_textOf {native : UInt32} {text : List UInt8}
    (himg : base + size ≤ img.length) (hheader : HeaderOk native img base size)
    (hfew : (sectionsIn img base size).length < 2 ^ 31)
    (h : ksymsEmitMacho native img base size = some text) : text = textOf img base size := by
  obtain ⟨hlooks, ⟨rfl, hnone⟩ | ⟨t, ht, hgather⟩⟩ := parseMacho_eq himg hheader hfew h
  · rw [textOf, hnone]
    rfl
  · rw [textOf, ht, Option.elim_some, symbolsText, List.flatMap_map]
    refine Lib.eq_flatMap_of_gather (fun i _ line hline => ?_) hgather
    exact emitEntry_eq (fun n hn => getD_letters hlooks hn) hline

/-- What an image is printed as is made of lines of symbols. -/
theorem textOf_eq_symbols (hnames : PlainNames img base size) :
    ∃ syms : List Symbol, textOf img base size = syms.flatMap Symbol.line := by
  rw [textOf]
  cases ht : symtabIn img base size with
  | none => exact ⟨[], rfl⟩
  | some t =>
    refine symbolsText_eq_lines (fun n hn => ?_) _ _
    obtain ⟨i, hi, rfl⟩ := List.mem_map.mp hn
    have hname := hnames t ht i (List.mem_range.mp hi)
    rwa [nameOff, ← toNat_strx, ← List.drop_drop] at hname

/-- What reaches a reader of a node who is not root, from the image on: what the daemon has parsed
and printed is made of lines of symbols, and each comes with zeros for its address. -/
theorem readSymtab_of_image {native : UInt32} {text : List UInt8} (himg : base + size ≤ img.length)
    (hheader : HeaderOk native img base size) (hfew : (sectionsIn img base size).length < 2 ^ 31)
    (hnames : PlainNames img base size) (h : ksymsEmitMacho native img base size = some text)
    {extra : List CString} (hextra : ∀ name ∈ extra, newline ∉ name) (node : SymNode)
    (hlen : (node.print extra text).length < 2 ^ 31) {fuel : ℕ}
    (hfuel : (node.print extra text).length / Ctl.procfsCtlMaxpayload < fuel)
    {cred : Option Cred} (hcred : restricted cred = true) (outside : ℤ → UInt8)
    (cached : Option (List UInt8)) (uio : Uio) :
    ∃ syms : List Symbol, text = syms.flatMap Symbol.line ∧
      readSymtab outside (node.print extra text) cached fuel cred uio =
        some (serveText outside (node.print extra (syms.flatMap Symbol.maskedLine)) uio) := by
  obtain ⟨syms, hsyms⟩ := textOf_eq_symbols hnames
  rw [← ksymsEmitMacho_eq_textOf himg hheader hfew h] at hsyms
  refine ⟨syms, hsyms, ?_⟩
  rw [hsyms] at hlen hfuel ⊢
  exact readSymtab_restricted hextra node hlen hfuel hcred cached uio

end Text

end ProcFS.Data.Macho
