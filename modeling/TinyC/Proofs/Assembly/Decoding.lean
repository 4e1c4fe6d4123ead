import Mathlib.Data.List.Forall2
import TinyC.Proofs.Assembly.Reading
import TinyC.Proofs.Code.Writable

namespace TinyC

open Processor

-- Lines that each end in a newline.
def terminated (lines : List String) : String := String.join (lines.map (· ++ "\n"))

section Decoder

def Numeral.ofDigits? (digits : List Char) : Option Nat :=
  if digits ≠ [] ∧ digits.all Char.isDigit then some (spelled .ten digits) else none

-- The number that a text is in decimal, with a minus in front if it is negative.
def Numeral.ofDecimal? : List Char → Option Int
  | '-' :: digits => (ofDigits? digits).map fun n => -(n : Int)
  | digits => (ofDigits? digits).map fun n => (n : Int)

-- The slot whose part of a width has the name.
def Register.ofHardware? (width : Width) (name : List Char) : Option Register :=
  all.find? fun slot => slot.hardware width == String.ofList name

def Operand.ofText? (width : Width) : List Char → Option Operand
  | '$' :: value => (Numeral.ofDecimal? value).map .immediate
  | '%' :: name => (Register.ofHardware? width name).map .register
  | _ => none

def Op.mnemonic : Op → String
  | .nullary op => op.mnemonic
  | .unary op => op.mnemonic
  | .binary op => op.mnemonic

def Op.ofMnemonic? (name : List Char) : Option Op :=
  all.find? fun op => op.mnemonic == String.ofList name

-- The name behind a symbol of the platform.
def Target.ofSymbol? (target : Target) (symbol : List Char) : Option String :=
  (target.symbolHead.toList.isPrefixOf? symbol).map String.ofList

-- The instruction of an operation and the texts of its operands.
def Instruction.ofFields? : Op → List (List Char) → Option Instruction
  | .nullary op, [] => some (.nullary op)
  | .unary op, [operand] => (Operand.ofText? op.width operand).map (.unary op)
  | .binary op, [source, ' ' :: destination] => do
    let source ← Operand.ofText? .long source
    let destination ← Operand.ofText? .long destination
    return .binary op source destination
  | _, _ => none

-- A line that a tab does not divide is a label. All else is indented by a tab, and another tab
-- stands before what the operation or the directive is applied to.
def Instruction.ofLine? (target : Target) (line : List Char) : Option Instruction :=
  match line.splitOn '\t' with
  | [marked] => do
    let symbol ← [':'].isSuffixOf? marked
    let name ← target.ofSymbol? symbol
    return .label (some name)
  | [[], word] =>
    if word = ".text".toList then some (.directive .text (some ""))
    else do ofFields? (← Op.ofMnemonic? word) []
  | [[], word, fields] =>
    if word = ".globl".toList then
      (target.ofSymbol? fields).map fun name => .directive .globl (some name)
    else do ofFields? (← Op.ofMnemonic? word) (fields.splitOn ',')
  | _ => none

-- The code that a text of the target is for. Empty lines say nothing, and the trailer has to be
-- there.
def decode? (target : Target) (text : String) : Option (List Instruction) := do
  let lines := (text.toList.splitOn '\n').filter (· ≠ [])
  let code ← (target.trailer.map String.toList).isSuffixOf? lines
  code.mapM (Instruction.ofLine? target)

end Decoder

section Pieces

theorem Numeral.ofDigits?_decimalDigits (n : Nat) : ofDigits? (decimalDigits n) = some n := by
  have hdigits : decimalDigits n ≠ [] ∧ (decimalDigits n).all Char.isDigit = true :=
    ⟨decimalDigits_ne_nil n, List.all_eq_true.mpr (isDigit_decimalDigits n)⟩
  rw [ofDigits?, if_pos hdigits, spelled_decimalDigits]

theorem Numeral.ofDecimal?_decimalChars (value : Int) :
    ofDecimal? (decimalChars value) = some value := by
  cases value with
  | ofNat n =>
    have hread := ofDigits?_decimalDigits n
    have hminus : '-' ∉ decimalDigits n := by
      intro hmem
      have hdigit := isDigit_decimalDigits n _ hmem
      revert hdigit
      decide
    rw [decimalChars]
    unfold ofDecimal?
    split
    · next digits heq => exact absurd (heq ▸ List.mem_cons_self) hminus
    · rw [hread]
      rfl
  | negSucc n =>
    simp only [decimalChars, ofDecimal?, ofDigits?_decimalDigits]
    rfl

theorem Numeral.isPlain_decimalChars (value : Int) : ∀ c ∈ decimalChars value, IsPlain c := by
  have hdigits : ∀ n, ∀ c ∈ decimalDigits n, IsPlain c := fun n c hc =>
    isPlain_of_isDigit (isDigit_decimalDigits n c hc)
  cases value with
  | ofNat n => exact hdigits n
  | negSucc n =>
    intro c hc
    rcases List.mem_cons.mp hc with rfl | hc
    · decide
    · exact hdigits _ c hc

theorem Operand.IsWritable.exists_decoded {operand : Operand} (h : operand.IsWritable)
    (width : Width) :
    ∃ text, operand.rendered width = .ok text ∧ ofText? width text.toList = some operand ∧
      ∀ c ∈ text.toList, IsPlain c := by
  cases operand with
  | immediate value =>
    have htext : ("$" ++ Numeral.decimal value).toList = '$' :: Numeral.decimalChars value := by
      simp [Numeral.decimal]
    refine ⟨"$" ++ Numeral.decimal value, ?_, ?_, ?_⟩
    · simp only [rendered, Numeral.written_of_isWritable h]
    · rw [htext, ofText?, Numeral.ofDecimal?_decimalChars]
      rfl
    · rw [htext]
      intro c hc
      rcases List.mem_cons.mp hc with rfl | hc
      · decide
      · exact Numeral.isPlain_decimalChars value c hc
  | register slot =>
    refine ⟨_, rfl, ?_, forall_isPlain ?_⟩ <;> cases slot <;> cases width <;> decide
  | foreign text => exact absurd h id

theorem Op.ofMnemonic?_mnemonic (op : Op) :
    ofMnemonic? op.mnemonic.toList = some op ∧ ∀ c ∈ op.mnemonic.toList, IsPlain c := by
  refine ⟨?_, forall_isPlain ?_⟩ <;> cases op <;> next op => cases op <;> decide

theorem Target.ofSymbol?_symbol (target : Target) (name : String) :
    target.ofSymbol? (target.symbolHead ++ name).toList = some name := by
  have hrest : target.symbolHead.toList.isPrefixOf? (target.symbolHead ++ name).toList =
      some name.toList := by
    rw [String.toList_append, List.isPrefixOf?_eq_some_iff_append_eq]
  rw [ofSymbol?, hrest, Option.map_some, String.ofList_toList]

theorem IsLetters.isPlain_symbol {name : String} (h : IsLetters name) (target : Target) :
    ∀ c ∈ (target.symbolHead ++ name).toList, IsPlain c := by
  intro c hc
  rw [String.toList_append, List.mem_append] at hc
  rcases hc with hc | hc
  · exact forall_isPlain (by cases target <;> decide) c hc
  · exact isPlain_of_isAlpha (h.letters c hc)

end Pieces

-- The line holds the instruction, and nothing that divides it.
structure Instruction.Decodes (target : Target) (line : String) (instruction : Instruction) :
    Prop where
  read : ofLine? target line.toList = some instruction
  nonempty : line.toList ≠ []
  unbroken : '\n' ∉ line.toList

namespace Instruction

-- What is plain is no word of a directive.
theorem ne_directive {word : List Char} (h : ∀ c ∈ word, IsPlain c) (rest : List Char) :
    word ≠ '.' :: rest := by
  rintro rfl
  exact (h '.' List.mem_cons_self).2.2.2.2.2 rfl

variable {target : Target}

theorem decodes_label {name : String} (h : IsLetters name) :
    Decodes target (target.symbolHead ++ name ++ ":") (.label (some name)) := by
  have hplain := h.isPlain_symbol target
  have htext : (target.symbolHead ++ name ++ ":").toList =
      (target.symbolHead ++ name).toList ++ [':'] := String.toList_append
  refine ⟨?_, by simp [htext], ?_⟩
  · have hsplit : (target.symbolHead ++ name ++ ":").toList.splitOn '\t' =
        [(target.symbolHead ++ name ++ ":").toList] := by
      apply List.splitOn_eq_singleton
      rw [htext, List.mem_append, not_or]
      exact ⟨fun hmem => (hplain _ hmem).1 rfl, by decide⟩
    have hcolon : [':'].isSuffixOf? (target.symbolHead ++ name ++ ":").toList =
        some (target.symbolHead ++ name).toList := by
      rw [List.isSuffixOf?_eq_some_iff_append_eq, htext]
    simp only [ofLine?, hsplit, hcolon, Option.bind_eq_bind, Option.bind_some,
      Target.ofSymbol?_symbol]
    rfl
  · rw [htext, List.mem_append, not_or]
    exact ⟨fun hmem => (hplain _ hmem).2.1 rfl, by decide⟩

theorem decodes_globl {name : String} (h : IsLetters name) :
    Decodes target ("\t.globl\t" ++ target.symbolHead ++ name) (.directive .globl (some name)) := by
  have hplain := h.isPlain_symbol target
  have htext : ("\t.globl\t" ++ target.symbolHead ++ name).toList =
      '\t' :: (".globl".toList ++ '\t' :: (target.symbolHead ++ name).toList) := by simp
  refine ⟨?_, by simp [htext], ?_⟩
  · have hsplit : ("\t.globl\t" ++ target.symbolHead ++ name).toList.splitOn '\t' =
        [[], ".globl".toList, (target.symbolHead ++ name).toList] := by
      rw [htext, splitOn_tab_cons, List.splitOn_append_cons_self_of_not_mem (by decide),
        splitOn_tab hplain]
    simp only [ofLine?, hsplit, Target.ofSymbol?_symbol]
    rfl
  · rw [htext]
    simp only [List.mem_cons, List.mem_append, not_or]
    exact ⟨by decide, by decide, by decide, fun hmem => (hplain _ hmem).2.1 rfl⟩

-- A line of an operation alone.
theorem decodes_bare (op : Op) {instruction : Instruction}
    (h : ofFields? op [] = some instruction) :
    Decodes target ("\t" ++ op.mnemonic) instruction := by
  obtain ⟨hread, hplain⟩ := op.ofMnemonic?_mnemonic
  have htext : ("\t" ++ op.mnemonic).toList = '\t' :: op.mnemonic.toList := by simp
  refine ⟨?_, by simp [htext], ?_⟩
  · have hword : op.mnemonic.toList ≠ ".text".toList := ne_directive hplain _
    simp only [ofLine?, htext, splitOn_tab_bare hplain, if_neg hword, hread]
    exact h
  · rw [htext, List.mem_cons, not_or]
    exact ⟨by decide, fun hmem => (hplain _ hmem).2.1 rfl⟩

-- A line of an operation and the fields of its operands.
theorem decodes_fields (op : Op) {instruction : Instruction} {fields : String}
    (h : ofFields? op (fields.toList.splitOn ',') = some instruction)
    (htab : '\t' ∉ fields.toList) (hnewline : '\n' ∉ fields.toList) :
    Decodes target ("\t" ++ op.mnemonic ++ "\t" ++ fields) instruction := by
  obtain ⟨hread, hplain⟩ := op.ofMnemonic?_mnemonic
  have htext : ("\t" ++ op.mnemonic ++ "\t" ++ fields).toList =
      '\t' :: (op.mnemonic.toList ++ '\t' :: fields.toList) := by simp
  refine ⟨?_, by simp [htext], ?_⟩
  · have hword : op.mnemonic.toList ≠ ".globl".toList := ne_directive hplain _
    simp only [ofLine?, htext, splitOn_tab_fields hplain htab, if_neg hword, hread]
    exact h
  · rw [htext]
    simp only [List.mem_cons, List.mem_append, not_or]
    exact ⟨by decide, fun hmem => (hplain _ hmem).2.1 rfl, by decide, hnewline⟩

-- The line of an instruction decodes to the instruction.
theorem IsEncodable.exists_decodes {instruction : Instruction} (h : instruction.IsEncodable)
    (target : Target) :
    ∃ line, instruction.rendered target = .ok line ∧ Decodes target line instruction := by
  cases instruction with
  | directive kind argument =>
    cases kind with
    | text =>
      cases h
      exact ⟨"\t.text", rfl, rfl, by decide, by decide⟩
    | globl =>
      obtain ⟨name, rfl, hname⟩ := h
      exact ⟨_, rfl, decodes_globl hname⟩
  | label name =>
    obtain ⟨name, rfl, hname⟩ := h
    exact ⟨_, rfl, decodes_label hname⟩
  | nullary op => exact ⟨_, rfl, decodes_bare (.nullary op) rfl⟩
  | unary op operand =>
    obtain ⟨text, htext, hread, hplain⟩ := Operand.IsWritable.exists_decoded h op.width
    refine ⟨"\t" ++ op.mnemonic ++ "\t" ++ text, ?_, decodes_fields (.unary op) ?_ ?_ ?_⟩
    · simp only [rendered, htext]
      rfl
    · rw [splitOn_comma hplain, ofFields?, hread]
      rfl
    · exact fun hmem => (hplain _ hmem).1 rfl
    · exact fun hmem => (hplain _ hmem).2.1 rfl
  | binary op source destination =>
    obtain ⟨text, htext, hread, hplain⟩ := Operand.IsWritable.exists_decoded h.1 .long
    obtain ⟨other, hother, hlast, hlastPlain⟩ := Operand.IsWritable.exists_decoded h.2 .long
    have hfields : (text ++ ", " ++ other).toList = text.toList ++ ',' :: ' ' :: other.toList := by
      simp
    refine ⟨"\t" ++ op.mnemonic ++ "\t" ++ (text ++ ", " ++ other), ?_,
      decodes_fields (.binary op) ?_ ?_ ?_⟩
    · simp only [rendered, htext, hother, ← String.append_assoc]
      rfl
    · rw [hfields, splitOn_comma_blank hplain hlastPlain, ofFields?, hread, hlast]
      rfl
    · rw [hfields]
      exact not_mem_operands hplain hlastPlain (by decide) (by decide) (by decide)
    · rw [hfields]
      exact not_mem_operands hplain hlastPlain (by decide) (by decide) (by decide)
  | foreign text => exact absurd h id

end Instruction

theorem terminated_cons (line : String) (rest : List String) :
    terminated (line :: rest) = line ++ "\n" ++ terminated rest := by
  rw [terminated, List.map_cons, String.join_cons, terminated]

theorem intercalate_newline {lines : List String} (h : lines ≠ []) :
    "\n".intercalate lines ++ "\n" = terminated lines := by
  induction lines with
  | nil => exact absurd rfl h
  | cons line rest ih =>
    cases rest with
    | nil => simp [terminated]
    | cons next others =>
      rw [String.intercalate_cons_cons, String.append_assoc, ih (List.cons_ne_nil _ _),
        terminated_cons line]

-- The text without instructions and trailer is an empty line.
theorem intercalate_newline_eq (lines : List String) :
    "\n".intercalate lines ++ "\n" = if lines = [] then "\n" else terminated lines := by
  by_cases h : lines = []
  · rw [if_pos h, h]
    rfl
  · rw [if_neg h, intercalate_newline h]

-- The lines are those of the code, one for each instruction.
def Encodes (target : Target) (lines : List String) (code : List Instruction) : Prop :=
  List.Forall₂ (Instruction.Decodes target) lines code

theorem exists_encodes (target : Target) {code : List Instruction}
    (h : ∀ instruction ∈ code, instruction.IsEncodable) :
    ∃ lines, code.mapM (fun instruction => instruction.rendered target) = .ok lines ∧
      Encodes target lines code := by
  induction code with
  | nil => exact ⟨[], rfl, .nil⟩
  | cons instruction rest ih =>
    obtain ⟨line, hline, hdecodes⟩ := (h instruction (by simp)).exists_decodes target
    obtain ⟨lines, hlines, hencodes⟩ := ih fun other hmem => h other (by simp [hmem])
    refine ⟨line :: lines, ?_, .cons hdecodes hencodes⟩
    rw [List.mapM_cons, hline, hlines]
    rfl

namespace Encodes

variable {target : Target} {lines : List String} {code : List Instruction}

theorem mapM_ofLine? (h : Encodes target lines code) :
    (lines.map String.toList).mapM (Instruction.ofLine? target) = some code := by
  induction h with
  | nil => rfl
  | cons hfirst _ ih =>
    rw [List.map_cons, List.mapM_cons, hfirst.read, ih]
    rfl

theorem forall_line (h : Encodes target lines code) :
    ∀ line ∈ lines, line.toList ≠ [] ∧ '\n' ∉ line.toList := by
  induction h with
  | nil => exact List.forall_mem_nil _
  | cons hfirst _ ih =>
    exact List.forall_mem_cons.mpr ⟨⟨hfirst.nonempty, hfirst.unbroken⟩, ih⟩

-- No line is empty or divided, the trailer's included.
theorem forall_line_append (h : Encodes target lines code) :
    ∀ line ∈ lines ++ target.trailer, line.toList ≠ [] ∧ '\n' ∉ line.toList :=
  List.forall_mem_append.mpr ⟨h.forall_line, target.line_of_mem_trailer⟩

-- Empty lines aside, the text is split into its lines.
theorem splitOn_newline (h : Encodes target lines code) :
    (("\n".intercalate (lines ++ target.trailer) ++ "\n").toList.splitOn '\n').filter (· ≠ []) =
      (lines ++ target.trailer).map String.toList := by
  have hlines := h.forall_line_append
  by_cases hnil : lines ++ target.trailer = []
  · rw [hnil]
    rfl
  · rw [splitOn_newline_lines hnil fun line hmem => (hlines line hmem).2, List.filter_append]
    have hfilter : ((lines ++ target.trailer).map String.toList).filter (· ≠ []) =
        (lines ++ target.trailer).map String.toList := by
      rw [List.filter_eq_self]
      intro text hmem
      obtain ⟨line, hline, rfl⟩ := List.mem_map.mp hmem
      exact decide_eq_true (hlines line hline).1
    rw [hfilter]
    exact List.append_nil _

theorem decode?_eq (h : Encodes target lines code) :
    decode? target ("\n".intercalate (lines ++ target.trailer) ++ "\n") = some code := by
  have hcode : (target.trailer.map String.toList).isSuffixOf?
      ((lines ++ target.trailer).map String.toList) = some (lines.map String.toList) := by
    rw [List.isSuffixOf?_eq_some_iff_append_eq, List.map_append]
  simp only [decode?, h.splitOn_newline, hcode, Option.bind_eq_bind, Option.bind_some,
    h.mapM_ofLine?]

end Encodes

-- Code that can be encoded has a text, and the text decodes to the code.
theorem exists_decoded (target : Target) {code : List Instruction}
    (h : ∀ instruction ∈ code, instruction.IsEncodable) :
    ∃ text, render target code = .ok text ∧ decode? target text = some code := by
  obtain ⟨lines, hlines, hencodes⟩ := exists_encodes target h
  refine ⟨_, ?_, hencodes.decode?_eq⟩
  rw [render, hlines]
  rfl

theorem eq_of_render_eq {target : Target} {code other : List Instruction}
    (h : ∀ instruction ∈ code, instruction.IsEncodable)
    (hother : ∀ instruction ∈ other, instruction.IsEncodable)
    (heq : render target code = render target other) : code = other := by
  obtain ⟨text, htext, hcode⟩ := exists_decoded target h
  obtain ⟨found, hfound, hdecoded⟩ := exists_decoded target hother
  rw [htext, hfound] at heq
  cases heq
  exact Option.some.inj (hcode.symm.trans hdecoded)

-- Code of the machine whose names are of letters is read back from its text. Each instruction is
-- on a line of its own, which no other line divides, and only the lines of the trailer come
-- after them. A text without any such line is an empty line.
theorem assembly_text_is_lossless (target : Target) (code : List Instruction)
    (h : ∀ instruction ∈ code, instruction.IsEncodable) :
    ∃ text lines, render target code = .ok text ∧ decode? target text = some code ∧
      (∀ other : List Instruction, (∀ instruction ∈ other, instruction.IsEncodable) →
        render target other = render target code → other = code) ∧
      code.mapM (fun instruction => instruction.rendered target) = .ok lines ∧
      lines.length = code.length ∧
      (∀ line ∈ lines ++ target.trailer, line ≠ "" ∧ '\n' ∉ line.toList) ∧
      text = if lines ++ target.trailer = [] then "\n"
        else terminated (lines ++ target.trailer) := by
  obtain ⟨lines, hlines, hencodes⟩ := exists_encodes target h
  refine ⟨"\n".intercalate (lines ++ target.trailer) ++ "\n", lines, ?_, hencodes.decode?_eq, ?_,
    hlines, hencodes.length_eq, ?_, intercalate_newline_eq _⟩
  · rw [render, hlines]
    rfl
  · intro other hother heq
    exact eq_of_render_eq hother h heq
  · intro line hmem
    obtain ⟨hne, hbreak⟩ := hencodes.forall_line_append line hmem
    refine ⟨?_, hbreak⟩
    rintro rfl
    exact hne rfl

-- Code with a line of each kind, and with parts of registers and negative numbers where generated
-- code has none.
def motleyCode : List Instruction :=
  [.directive .text (some ""), .directive .globl (some "ret"), .label (some "ret"),
   .unary .sete (.register .divisor), .unary .push (.immediate (-10)),
   .binary .mov (.register .scratch) (.immediate (-7)), Instruction.nullary .signExtend,
   Instruction.nullary .ret]

def motleyText : String :=
  "\t.text\n\t.globl\t_ret\n_ret:\n\tsete\t%sil\n\tpushq\t$-10\n\tmovl\t%ecx, $-7\n\tcltd\n" ++
    "\tret\n"

theorem assembly_text_is_lossless_motleyCode :
    (∀ instruction ∈ motleyCode, instruction.IsEncodable) ∧
      render .darwin motleyCode = .ok motleyText ∧
      decode? .darwin motleyText = some motleyCode := by
  have hletters : "ret".toList.all Char.isAlpha = true := by decide
  have hname : IsLetters "ret" := ⟨by decide, List.all_eq_true.mp hletters⟩
  have hten : Numeral.isWritable (-10) := by decide +kernel
  have hseven : Numeral.isWritable (-7) := by decide +kernel
  have hencodable : ∀ instruction ∈ motleyCode, instruction.IsEncodable := by
    simp only [motleyCode, List.forall_mem_cons, List.not_mem_nil, false_imp_iff, implies_true,
      and_true]
    exact ⟨rfl, ⟨_, rfl, hname⟩, ⟨_, rfl, hname⟩, trivial, hten, ⟨trivial, hseven⟩, trivial,
      trivial⟩
  have hrender : render .darwin motleyCode = .ok motleyText := by decide +kernel
  obtain ⟨text, _, htext, hdecode, _⟩ := assembly_text_is_lossless .darwin motleyCode hencodable
  rw [hrender] at htext
  cases htext
  exact ⟨hencodable, hrender, hdecode⟩

-- Without instructions and trailer the text still has a line.
theorem empty_text_has_unowned_line :
    ¬ ∀ (target : Target) (code : List Instruction),
      (∀ instruction ∈ code, instruction.IsEncodable) →
      ∃ text lines, render target code = .ok text ∧
        code.mapM (fun instruction => instruction.rendered target) = .ok lines ∧
        text = terminated (lines ++ target.trailer) := by
  intro h
  obtain ⟨text, lines, htext, hlines, heq⟩ := h .darwin [] (by simp)
  have hempty : render .darwin [] = .ok "\n" := rfl
  rw [hempty] at htext
  cases htext
  cases hlines
  revert heq
  decide

end TinyC
