import ProcFS.CopyData
import ProcFS.Lib.Bytes
import ProcFS.Lib.Printf
import ProcFS.Transfer

/-!
# ProcFS.Data.Symtab — the kernel's symbols, without their addresses

The daemon renders the symbol table of the kernel image, a line for each symbol with its
address in 16 columns. `ksyms` and `kallsyms` serve that text to root as it is. For
everybody else `procfs_do_symtab` runs over the text and overwrites the addresses with
zeros, in place: it has to find the start of every line, and to leave the types and the
names alone.

* `symbolsText_eq_lines`: the daemon prints lines of symbols.
* `maskLoop_lines`: every line is masked, and nothing else is touched.
* `symtab_hides_addresses`: what a reader who is not root gets.
-/

namespace ProcFS.Data

open Ctl (Result procfsCtlMaxpayload)
open Lib (hexField untilNul)
open Transfer (steadyListing text procfsCtlRequestBlob)

def newline : UInt8 := 10

def blank : UInt8 := 32

def zeroDigit : UInt8 := 48

/-! ## The text of the daemon -/

/-- `fprintf(out, "%016llx %c %s\n", ...)`. -/
def symbolLine (address : UInt64) (type : UInt8) (name : CString) : List UInt8 :=
  hexField false 16 address.toNat ++ ([blank, type, blank] ++ name ++ [newline])

/-- `struct section_64`, by its names. -/
structure Section where
  segname : CString
  sectname : CString
deriving DecidableEq, Repr

def Section.letter (s : Section) : UInt8 :=
  if cstr "__DATA" <+: s.segname then
    if cstr "bss" <:+: s.sectname ∨ cstr "common" <:+: s.sectname then 98 else 100
  else 116

/-- The table `section_type`: sections are numbered from 1, and the others are text. -/
def sectionType (secs : List Section) (nSect : UInt8) : UInt8 :=
  if nSect = 0 then 116 else (secs[nSect.toNat - 1]?).elim 116 Section.letter

/-- `struct nlist_64`. -/
structure Nlist where
  nStrx : UInt32
  nType : UInt8
  nSect : UInt8
  nValue : UInt64
deriving DecidableEq, Repr

/-- The type letter of a symbol, unless it is undefined. -/
def symbolType (secs : List Section) (n : Nlist) : Option UInt8 :=
  let ntype := n.nType &&& 0x0e
  let type : Option UInt8 :=
    if ntype = 0x00 ∨ ntype = 0x0c then none
    else if ntype = 0x02 then some 97
    else if ntype = 0x0a then some 105
    else if ntype = 0x0e then some (sectionType secs n.nSect)
    else some 63
  -- `toupper` changes the lower-case letters only
  type.map fun c => if n.nType &&& 0x01 ≠ 0 ∧ 97 ≤ c ∧ c ≤ 122 then c - 32 else c

/-- An iteration of the loop in `ksyms_emit_macho`; `strs` is the image from the string
table on. -/
def emitSymbol (secs : List Section) (strs : List UInt8) (strsize : ℕ) (n : Nlist) : List UInt8 :=
  if n.nType &&& 0xe0 ≠ 0 then []
  else if n.nStrx = 0 ∨ strsize ≤ n.nStrx.toNat then []
  else
    let name := untilNul (strs.drop n.nStrx.toNat)
    if name = [] then []
    else (symbolType secs n).elim [] fun type => symbolLine n.nValue type name

/-- What is printed for the symbols of an image. -/
def symbolsText (secs : List Section) (strs : List UInt8) (strsize : ℕ) (syms : List Nlist) :
    List UInt8 :=
  syms.flatMap (emitSymbol secs strs strsize)

/-- A line of `build_kallsyms_blob`: `fprintf(out, "0000000000000000 t %s\n", ...)`. -/
def extraLine (name : CString) : List UInt8 := cstr "0000000000000000 t " ++ name ++ [newline]

/-- What becomes of the printed text: there is no blob without a text. -/
def blobOf (printed : List UInt8) : Option (List UInt8) :=
  if printed = [] then none else some printed

inductive SymNode where
  | ksyms
  | kallsyms
deriving DecidableEq, Repr

/-- What is printed for a node, when `emitted` is printed for the kernel's image; `extra`
is `procfs_kallsyms_extra`. -/
def SymNode.print (node : SymNode) (extra : List CString) (emitted : List UInt8) : List UInt8 :=
  match node with
  | .ksyms => emitted
  | .kallsyms => emitted ++ extra.flatMap extraLine

/-! ## The scanner -/

/-- The inner loop: up to `k` columns are overwritten, before a blank or the end of the
line. -/
def zeroColumns : ℕ → List UInt8 → List UInt8
  | 0, d => d
  | _ + 1, [] => []
  | k + 1, b :: d => if b = blank ∨ b = newline then b :: d else zeroDigit :: zeroColumns k d

/-- The outer loop, over the part of the text that lies ahead. The flag is
`at_line_start`, and `left` is how many iterations there are. -/
def maskLoop : ℕ → Bool → List UInt8 → List UInt8
  | 0, _, d => d
  | left + 1, atLineStart, d =>
    let mask := atLineStart && d.head? != some newline
    let d := if mask then zeroColumns (min 16 (left + 1)) d else d
    let atLineStart := if mask then false else atLineStart
    match d with
    | [] => []
    | b :: d => b :: maskLoop left (atLineStart || b == newline) d

/-- `cred == NULL || kauth_cred_getuid(cred) != 0`. -/
def restricted (cred : Option Cred) : Bool := cred.all fun c => c.crUid != 0

/-- What a read of a text node returns: the error, the bytes and the `uio` after it. -/
structure TextReply where
  error : Int32
  bytes : List UInt8
  uio : Uio
deriving DecidableEq, Repr

/-- `procfs_copy_data` of a buffer, with `outside` in the memory around it. -/
def serveText (outside : ℤ → UInt8) (data : List UInt8) (uio : Uio) : TextReply :=
  let r := procfsCopyData false (Int32.ofNat data.length) uio
  ⟨(r.error.map Errno.code).getD 0, r.copied.map fun p => (byteAt data p).getD (outside p), r.uio⟩

/-- `procfs_do_symtab`: `sbufNew` tells whether there was memory for the sbuf, `fetched`
is what `procfs_ctl_request_blob` returned. The length of an sbuf is an `int`. -/
def procfsDoSymtab (outside : ℤ → UInt8) (sbufNew : Bool) (fetched : Result) (cred : Option Cred)
    (uio : Uio) : TextReply :=
  if sbufNew then
    match fetched with
    | .error e => ⟨if e = Ctl.enotconn then 0 else e, [], uio⟩
    | .ok d =>
      let n := Int32.ofNat d.length
      serveText outside (if restricted cred then maskLoop n.toNatClampNeg true d else d) uio
  else ⟨Transfer.enomem, [], uio⟩

/-- A read of a node, while the daemon prints `printed` for it: `procfs_doksyms` and
`procfs_dokallsyms`. -/
def readSymtab (outside : ℤ → UInt8) (printed : List UInt8) (cached : Option (List UInt8))
    (fuel : ℕ) (cred : Option Cred) (uio : Uio) : Option TextReply :=
  (procfsCtlRequestBlob (steadyListing (blobOf printed)) fuel cached).map fun fetched =>
    procfsDoSymtab outside true fetched cred uio

/-! ## Symbols -/

/-- A symbol whose line is one line: neither its type nor its name ends it. -/
structure Symbol where
  address : UInt64
  type : UInt8
  name : CString
  type_ne : type ≠ newline
  name_ne : newline ∉ name

/-- What follows the address in the line of a symbol. -/
def Symbol.rest (s : Symbol) : List UInt8 := [blank, s.type, blank] ++ s.name ++ [newline]

/-- The address of a symbol, in 16 columns. -/
def Symbol.columns (s : Symbol) : List UInt8 := hexField false 16 s.address.toNat

def Symbol.line (s : Symbol) : List UInt8 := s.columns ++ s.rest

/-- The line of a symbol with zeros for the address. -/
def Symbol.maskedLine (s : Symbol) : List UInt8 := List.replicate 16 zeroDigit ++ s.rest

theorem Symbol.length_columns (s : Symbol) : s.columns.length = 16 :=
  Lib.length_hexField (by decide) s.address.toNat_lt

/-- No column of an address ends the address or the line. -/
theorem Symbol.columns_ne {s : Symbol} {b : UInt8} (hb : b ∈ s.columns) :
    ¬ (b = blank ∨ b = newline) := by
  have hlt := Lib.lt_of_mem_hexField hb
  rintro (rfl | rfl)
  · exact absurd hlt (by decide)
  · exact absurd hlt (by decide)

/-! ## The daemon prints symbols -/

theorem sectionType_ne (secs : List Section) (nSect : UInt8) :
    sectionType secs nSect ≠ newline := by
  have hletter : ∀ s : Section, s.letter ≠ newline := by
    intro s
    unfold Section.letter
    split
    · split <;> decide
    · decide
  unfold sectionType
  split
  · decide
  · cases secs[nSect.toNat - 1]? with
    | none => decide
    | some s => exact hletter s

theorem symbolType_ne {secs : List Section} {n : Nlist} {type : UInt8}
    (h : symbolType secs n = some type) : type ≠ newline := by
  rcases Option.map_eq_some_iff.mp h with ⟨c, hc, rfl⟩
  have hne : c ≠ newline := by
    intro heq
    subst heq
    have hsect := sectionType_ne secs n.nSect
    split_ifs at hc <;> simp_all [newline]
  split
  · -- a capital letter
    rename_i hlower
    intro heq
    have hle := UInt8.le_iff_toNat_le.mp hlower.2.1
    have hsub := congrArg UInt8.toNat heq
    rw [UInt8.toNat_sub_of_le c 32
      (UInt8.le_iff_toNat_le.mpr (Nat.le_trans (by decide) hle))] at hsub
    have hnum : (97 : UInt8).toNat = 97 ∧ (32 : UInt8).toNat = 32 ∧ newline.toNat = 10 :=
      ⟨rfl, rfl, rfl⟩
    omega
  · exact hne

/-- An iteration prints the line of a symbol, or nothing. -/
theorem emitSymbol_eq {strs : List UInt8} {n : Nlist}
    (hname : newline ∉ untilNul (strs.drop n.nStrx.toNat)) (secs : List Section) (strsize : ℕ) :
    ∃ syms : List Symbol, emitSymbol secs strs strsize n = syms.flatMap Symbol.line := by
  simp only [emitSymbol]
  split_ifs
  · exact ⟨[], rfl⟩
  · exact ⟨[], rfl⟩
  · exact ⟨[], rfl⟩
  · cases htype : symbolType secs n with
    | none => exact ⟨[], rfl⟩
    | some type =>
      refine ⟨[⟨n.nValue, type, untilNul (strs.drop n.nStrx.toNat), symbolType_ne htype, hname⟩],
        ?_⟩
      exact (List.flatMap_singleton _ _).symm

/-- What is printed for symbols whose names are single lines is made of lines of symbols. -/
theorem symbolsText_eq_lines {strs : List UInt8} {nlists : List Nlist}
    (hnames : ∀ n ∈ nlists, newline ∉ untilNul (strs.drop n.nStrx.toNat)) (secs : List Section)
    (strsize : ℕ) :
    ∃ syms : List Symbol, symbolsText secs strs strsize nlists = syms.flatMap Symbol.line := by
  induction nlists with
  | nil => exact ⟨[], rfl⟩
  | cons n nlists ih =>
    rcases ih fun m hm => hnames m (List.mem_cons_of_mem n hm) with ⟨syms, hsyms⟩
    rcases emitSymbol_eq (hnames n List.mem_cons_self) secs strsize with ⟨first, hfirst⟩
    refine ⟨first ++ syms, ?_⟩
    rw [List.flatMap_append, ← hfirst, ← hsyms]
    rfl

/-- The names without an address are symbols with address 0. -/
theorem extraLine_eq (name : CString) (h : newline ∉ name) :
    extraLine name = Symbol.line ⟨0, 116, name, by decide, h⟩ := by
  have hcols : cstr "0000000000000000 t " = hexField false 16 0 ++ [blank, 116, blank] := by decide
  show cstr "0000000000000000 t " ++ name ++ [newline] =
    hexField false 16 0 ++ ([blank, 116, blank] ++ name ++ [newline])
  rw [hcols]
  simp only [List.append_assoc]

/-! ## The scanner, line by line -/

theorem zeroColumns_append {cols : List UInt8} (hcols : ∀ b ∈ cols, ¬ (b = blank ∨ b = newline))
    (d : List UInt8) :
    zeroColumns cols.length (cols ++ d) = List.replicate cols.length zeroDigit ++ d := by
  induction cols with
  | nil =>
    cases d with
    | nil => rfl
    | cons b d => rfl
  | cons b cols ih =>
    rw [List.length_cons, List.cons_append, zeroColumns, if_neg (hcols b List.mem_cons_self),
      ih fun b' hb' => hcols b' (List.mem_cons_of_mem b hb'), List.replicate_succ, List.cons_append]

/-- The bytes up to the end of a line stay as they are. -/
theorem maskLoop_plain {xs : List UInt8} (hxs : newline ∉ xs) (left : ℕ) (d : List UInt8) :
    maskLoop (xs.length + left) false (xs ++ d) = xs ++ maskLoop left false d := by
  induction xs with
  | nil => rw [List.length_nil, Nat.zero_add, List.nil_append, List.nil_append]
  | cons b xs ih =>
    rw [List.mem_cons, not_or] at hxs
    have hb : (b == newline) = false := beq_false_of_ne (Ne.symm hxs.1)
    rw [List.length_cons, Nat.add_right_comm, List.cons_append, maskLoop]
    simp only [Bool.false_and, Bool.false_eq_true, if_false, hb, Bool.or_false, ih hxs.2,
      List.cons_append]

/-- The end of a line: the next one starts there. -/
theorem maskLoop_newline (left : ℕ) (d : List UInt8) :
    maskLoop (left + 1) false (newline :: d) = newline :: maskLoop left true d := by
  rfl

/-- At the start of a line the address is overwritten, and the scanner goes on as in the
middle of a line. -/
theorem maskLoop_columns (s : Symbol) (left : ℕ) (d : List UInt8) :
    maskLoop (16 + left) true (s.columns ++ d) =
      maskLoop (16 + left) false (List.replicate 16 zeroDigit ++ d) := by
  have hlen := s.length_columns
  have hhead : ((s.columns ++ d).head? != some newline) = true := by
    cases hcols : s.columns with
    | nil =>
      rw [hcols] at hlen
      exact absurd hlen (by decide)
    | cons b cols =>
      have hb : b ∈ s.columns := by
        rw [hcols]
        exact List.mem_cons_self
      have hne : b ≠ newline := fun heq => Symbol.columns_ne hb (Or.inr heq)
      simpa using hne
  have hzero := zeroColumns_append (fun b hb => Symbol.columns_ne (s := s) hb) d
  rw [hlen] at hzero
  have hcount : min 16 (15 + left + 1) = 16 := by omega
  rw [show 16 + left = 15 + left + 1 by omega, maskLoop, maskLoop, hhead, hcount, hzero]
  rfl

/-- The line of a symbol is masked, and the scanner is at the start of the next one. -/
theorem maskLoop_line (s : Symbol) (left : ℕ) (d : List UInt8) :
    maskLoop (s.line.length + left) true (s.line ++ d) = s.maskedLine ++ maskLoop left true d := by
  have hplain : newline ∉ List.replicate 16 zeroDigit ++ ([blank, s.type, blank] ++ s.name) := by
    simp only [List.mem_append, List.mem_cons, not_or]
    refine ⟨?_, ⟨by decide, Ne.symm s.type_ne, by decide, List.not_mem_nil⟩, s.name_ne⟩
    intro hmem
    exact absurd (List.eq_of_mem_replicate hmem) (by decide)
  have hloop := maskLoop_plain hplain (left + 1) (newline :: d)
  rw [maskLoop_newline] at hloop
  have hlength : s.line.length + left =
      16 + ([blank, s.type, blank] ++ s.name).length + (left + 1) := by
    rw [Symbol.line, List.length_append, s.length_columns, Symbol.rest, List.length_append]
    simp only [List.length_singleton]
    omega
  rw [List.length_append, List.length_replicate] at hloop
  rw [hlength, Nat.add_assoc 16, Symbol.line, List.append_assoc, maskLoop_columns, ← Nat.add_assoc,
    Symbol.maskedLine, Symbol.rest]
  simp only [List.append_assoc, List.singleton_append] at hloop ⊢
  exact hloop

/-- The whole text: every line is masked, and nothing else is touched. -/
theorem maskLoop_lines (syms : List Symbol) :
    maskLoop (syms.flatMap Symbol.line).length true (syms.flatMap Symbol.line) =
      syms.flatMap Symbol.maskedLine := by
  induction syms with
  | nil => rfl
  | cons s syms ih =>
    rw [List.flatMap_cons, List.length_append, maskLoop_line, ih, List.flatMap_cons]

theorem length_flatMap_maskedLine (syms : List Symbol) :
    (syms.flatMap Symbol.maskedLine).length = (syms.flatMap Symbol.line).length := by
  induction syms with
  | nil => rfl
  | cons s syms ih =>
    rw [List.flatMap_cons, List.flatMap_cons, List.length_append, List.length_append, ih,
      Symbol.line, Symbol.maskedLine, List.length_append, List.length_append, s.length_columns,
      List.length_replicate]

/-! ## What a reader gets -/

/-- The names without an address are lines of symbols, and masking does not change them. -/
theorem extraLines_eq {extra : List CString} (hextra : ∀ name ∈ extra, newline ∉ name) :
    ∃ more : List Symbol, extra.flatMap extraLine = more.flatMap Symbol.line ∧
      more.flatMap Symbol.maskedLine = more.flatMap Symbol.line := by
  induction extra with
  | nil => exact ⟨[], rfl, rfl⟩
  | cons name extra ih =>
    rcases ih fun name' h => hextra name' (List.mem_cons_of_mem name h) with ⟨more, hline, hmasked⟩
    have hname := hextra name List.mem_cons_self
    refine ⟨⟨0, 116, name, by decide, hname⟩ :: more, ?_, ?_⟩
    · rw [List.flatMap_cons, List.flatMap_cons, hline, extraLine_eq name hname]
    · have hzero : List.replicate 16 zeroDigit = hexField false 16 0 := by decide
      rw [List.flatMap_cons, List.flatMap_cons, hmasked, Symbol.maskedLine, hzero]
      rfl

section Nodes

variable {extra : List CString} (hextra : ∀ name ∈ extra, newline ∉ name) (node : SymNode)
include hextra

/-- The scanner on the text of a node. -/
theorem maskLoop_print (syms : List Symbol) :
    maskLoop (node.print extra (syms.flatMap Symbol.line)).length true
        (node.print extra (syms.flatMap Symbol.line)) =
      node.print extra (syms.flatMap Symbol.maskedLine) := by
  cases node with
  | ksyms => exact maskLoop_lines syms
  | kallsyms =>
    rcases extraLines_eq hextra with ⟨more, hline, hmasked⟩
    simp only [SymNode.print, hline]
    rw [← List.flatMap_append, maskLoop_lines, List.flatMap_append, hmasked]

omit hextra in
theorem length_print_maskedLine (syms : List Symbol) :
    (node.print extra (syms.flatMap Symbol.maskedLine)).length =
      (node.print extra (syms.flatMap Symbol.line)).length := by
  cases node with
  | ksyms => exact length_flatMap_maskedLine syms
  | kallsyms =>
    simp only [SymNode.print, List.length_append]
    rw [length_flatMap_maskedLine]

omit hextra in
/-- The daemon's text arrives whole. -/
theorem readSymtab_eq {outside : ℤ → UInt8} {printed : List UInt8} {cached : Option (List UInt8)}
    {fuel : ℕ} (hfuel : printed.length / procfsCtlMaxpayload < fuel) (cred : Option Cred)
    (uio : Uio) :
    readSymtab outside printed cached fuel cred uio =
      some (procfsDoSymtab outside true (.ok printed) cred uio) := by
  have htext : text (blobOf printed) = printed := by
    unfold blobOf
    split
    · rename_i hnil
      rw [hnil]
      rfl
    · rfl
  have hfetch := @Transfer.blobLoop_steady (blobOf printed) cached ⟨0, []⟩ fuel
    (Lib.Reader.synced_init _) (Or.inl rfl) (by rw [htext]; exact hfuel)
  rw [htext] at hfetch
  rw [readSymtab, procfsCtlRequestBlob, hfetch, Option.map_some]

/-- A reader who is not root gets the masked text. -/
theorem readSymtab_restricted {outside : ℤ → UInt8} {syms : List Symbol}
    (hlen : (node.print extra (syms.flatMap Symbol.line)).length < 2 ^ 31) {fuel : ℕ}
    (hfuel : (node.print extra (syms.flatMap Symbol.line)).length / procfsCtlMaxpayload < fuel)
    {cred : Option Cred} (hcred : restricted cred = true) (cached : Option (List UInt8))
    (uio : Uio) :
    readSymtab outside (node.print extra (syms.flatMap Symbol.line)) cached fuel cred uio =
      some (serveText outside (node.print extra (syms.flatMap Symbol.maskedLine)) uio) := by
  have hcount : (Int32.ofNat (node.print extra (syms.flatMap Symbol.line)).length).toNatClampNeg =
      (node.print extra (syms.flatMap Symbol.line)).length := by
    show (Int32.ofNat (node.print extra (syms.flatMap Symbol.line)).length).toInt.toNat = _
    rw [Int32.toInt_ofNat_of_lt hlen, Int.toNat_natCast]
  rw [readSymtab_eq hfuel]
  simp only [procfsDoSymtab, hcred, if_true, hcount, maskLoop_print hextra]

end Nodes

/-- What everybody may see of a symbol. -/
def Symbol.visible (s : Symbol) : UInt8 × CString := (s.type, s.name)

theorem flatMap_maskedLine_of_visible {syms other : List Symbol}
    (h : other.map Symbol.visible = syms.map Symbol.visible) :
    other.flatMap Symbol.maskedLine = syms.flatMap Symbol.maskedLine := by
  have hvisible : ∀ l : List Symbol, l.flatMap Symbol.maskedLine =
      (l.map Symbol.visible).flatMap fun v =>
        List.replicate 16 zeroDigit ++ ([blank, v.1, blank] ++ v.2 ++ [newline]) := by
    intro l
    rw [List.flatMap_map]
    rfl
  rw [hvisible, h, ← hvisible]

/-- No address reaches a reader who is not root: what such a reader gets at any offset is the
text with zeros in the 16 address columns of every line, which is the same for symbols
that differ in their addresses only. Root gets the text itself. -/
theorem symtab_hides_addresses {extra : List CString} (hextra : ∀ name ∈ extra, newline ∉ name)
    (node : SymNode) {syms : List Symbol}
    (hlen : (node.print extra (syms.flatMap Symbol.line)).length < 2 ^ 31) {fuel : ℕ}
    (hfuel : (node.print extra (syms.flatMap Symbol.line)).length / procfsCtlMaxpayload < fuel)
    (outside : ℤ → UInt8) :
    (∀ cred, (∀ c, cred = some c → c.crUid ≠ 0) → ∀ cached uio,
      readSymtab outside (node.print extra (syms.flatMap Symbol.line)) cached fuel cred uio =
          some (serveText outside (node.print extra (syms.flatMap Symbol.maskedLine)) uio) ∧
        ∀ other : List Symbol, other.map Symbol.visible = syms.map Symbol.visible → ∀ cached',
          readSymtab outside (node.print extra (other.flatMap Symbol.line)) cached' fuel cred uio =
            readSymtab outside (node.print extra (syms.flatMap Symbol.line)) cached fuel cred uio) ∧
      (∀ c : Cred, c.crUid = 0 → ∀ cached uio,
        readSymtab outside (node.print extra (syms.flatMap Symbol.line)) cached fuel (some c) uio =
          some (serveText outside (node.print extra (syms.flatMap Symbol.line)) uio)) ∧
      (node.print extra (syms.flatMap Symbol.maskedLine)).length =
        (node.print extra (syms.flatMap Symbol.line)).length ∧
      ∀ s ∈ syms, s.columns.length = 16 := by
  refine ⟨?_, ?_, length_print_maskedLine node syms, fun s _ => s.length_columns⟩
  · intro cred hcred cached uio
    have hrestricted : restricted cred = true := by
      cases cred with
      | none => rfl
      | some c => exact bne_iff_ne.mpr (hcred c rfl)
    have hsyms := @readSymtab_restricted extra hextra node outside syms hlen fuel hfuel cred
      hrestricted
    refine ⟨hsyms cached uio, ?_⟩
    intro other hvisible cached'
    -- the two texts differ, but not in their lengths
    have hmasked := flatMap_maskedLine_of_visible hvisible
    have hlength : (node.print extra (other.flatMap Symbol.line)).length =
        (node.print extra (syms.flatMap Symbol.line)).length := by
      rw [← length_print_maskedLine, hmasked, length_print_maskedLine]
    rw [hsyms cached uio, readSymtab_restricted hextra node (hlength ▸ hlen) (hlength ▸ hfuel)
      hrestricted, hmasked]
  · intro c hroot cached uio
    have hrestricted : restricted (some c) = false := by
      show (c.crUid != 0) = false
      rw [hroot]
      rfl
    rw [readSymtab_eq hfuel]
    simp only [procfsDoSymtab, hrestricted, if_true, Bool.false_eq_true, if_false]

/-- Two symbols of a kernel. -/
def bootSyms : List Symbol :=
  [⟨0xffffff8000200000, 84, cstr "_start", by decide, by decide⟩,
   ⟨0xffffff8000200040, 116, cstr "_idle", by decide, by decide⟩]

theorem symtab_hides_bootSyms :
    readSymtab (fun _ => 0) (SymNode.ksyms.print [] (bootSyms.flatMap Symbol.line)) none 1
        (some ⟨501, 20⟩) ⟨26, 8⟩ =
      some ⟨0, cstr "00000000", ⟨34, 0⟩⟩ := by
  have hreply := (@symtab_hides_addresses [] (fun _ h => absurd h List.not_mem_nil) .ksyms bootSyms
    (by decide) 1 (by decide) fun _ => 0).1 (some ⟨501, 20⟩) (fun c hc => by cases hc; decide)
    none ⟨26, 8⟩
  rw [hreply.1]
  decide

end ProcFS.Data
