import Mathlib.Data.List.Forall2
import TinyC.Proofs.Assembly.Reading

namespace TinyC

open Processor

-- The part of the processor behind each slot, operand and operation of generated code.

def Register.backing : Register → QuadRegister
  | .accumulator => .rax
  | .scratch => .rcx
  | .dividendHigh => .rdx
  | .divisor => .rsi

def NullaryOp.backing : NullaryOp → Mnemonic
  | .ret => .ret
  | .signExtend => .cltd

def UnaryOp.backing : UnaryOp → Mnemonic
  | .push => .pushq
  | .pop => .popq
  | .neg => .negl
  | .not => .notl
  | .sete => .sete
  | .idiv => .idivl

def BinaryOp.backing : BinaryOp → Mnemonic
  | .mov => .movl
  | .cmp => .cmpl
  | .add => .addl
  | .sub => .subl
  | .imul => .imull

-- Numbers are read back only if they are words without a sign.
def Operand.backing? (width : Width) : Operand → Option Processor.Operand
  | .immediate value =>
    if 0 ≤ value ∧ value < 0x100000000 then some (.immediate (Word.ofInt value)) else none
  | .register slot => some (.register width slot.backing)
  | .foreign _ => none

-- The statement that the line of an instruction is read back as.
def Instruction.backing? : Instruction → Option Statement
  | .directive _ _ => some .aside
  | .label _ => some .aside
  | .nullary op => some (.operation op.backing [])
  | .unary op operand => do
    let operand ← operand.backing? op.width
    return .operation op.backing [operand]
  | .binary op source destination => do
    let source ← source.backing? .long
    let destination ← destination.backing? .long
    return .operation op.backing [source, destination]
  | .foreign _ => none

-- The names of an instruction leave it on one line.
def Instruction.IsOneLine : Instruction → Prop
  | .directive _ argument => ∀ text ∈ argument, '\n' ∉ String.toList text
  | .label name => ∀ text ∈ name, '\n' ∉ String.toList text
  | _ => True

-- The text of an operand reads back as the operand, and divides no line.
structure Operand.ReadsBack (text : String) (operand : Processor.Operand) : Prop where
  read : readOperand? text.toList = some operand
  nonempty : text.toList ≠ []
  plain : ∀ c ∈ text.toList, IsPlain c

theorem Operand.rendered_reads_back {operand : Operand} {width : Width}
    {backing : Processor.Operand} (h : operand.backing? width = some backing) :
    ∃ text, operand.rendered width = .ok text ∧ ReadsBack text backing := by
  cases operand with
  | immediate value =>
    simp only [backing?, Option.ite_none_right_eq_some, Option.some.injEq] at h
    obtain ⟨hvalue, rfl⟩ := h
    have hdigits := Numeral.isDigit_decimalDigits value.toNat
    refine ⟨"$" ++ String.ofList (Numeral.decimalDigits value.toNat), ?_, ?_, ?_, ?_⟩
    · simp only [rendered, Numeral.written_of_word hvalue]
    · have hword : BitVec.ofNat 32 value.toNat = Word.ofInt value := by
        rw [Word.ofInt, ← Int.toNat_of_nonneg hvalue.1]
        rfl
      have hbound : value.toNat < 0x100000000 := by omega
      have hspelled := Numeral.spelled_decimalDigits value.toNat
      have hnumeral : Numeral.decimalDigits value.toNat ≠ [] ∧
          (Numeral.decimalDigits value.toNat).all Char.isDigit = true ∧ value.toNat < 0x100000000 :=
        ⟨Numeral.decimalDigits_ne_nil _, List.all_eq_true.mpr hdigits, hbound⟩
      have htext : ("$" ++ String.ofList (Numeral.decimalDigits value.toNat)).toList =
          '$' :: Numeral.decimalDigits value.toNat := by simp
      simp only [htext, readOperand?, hspelled, hword]
      exact if_pos hnumeral
    · simp
    · intro c hc
      simp only [String.toList_append, String.toList_ofList, List.mem_append] at hc
      rcases hc with hc | hc
      · exact forall_isPlain (by decide) c hc
      · exact isPlain_of_isDigit (hdigits c hc)
  | register slot =>
    cases h
    refine ⟨_, rfl, ?_, ?_, forall_isPlain ?_⟩ <;> cases slot <;> cases width <;> decide
  | foreign text => cases h

namespace Operand.ReadsBack

variable {text other : String} {operand last : Processor.Operand}

theorem read_one (h : ReadsBack text operand) : readOperands? [text.toList] = some [operand] := by
  simp [readOperands?, splitOn_comma h.plain, dropWhile_blank h.plain, h.read]

theorem read_two (h : ReadsBack text operand) (hlast : ReadsBack other last) :
    readOperands? [text.toList ++ ',' :: ' ' :: other.toList] = some [operand, last] := by
  have hblank : (' ' :: other.toList).dropWhile (· == ' ') = other.toList := by
    simpa using dropWhile_blank hlast.plain
  rw [readOperands?, splitOn_comma_blank h.plain hlast.plain]
  simp [dropWhile_blank h.plain, h.read, hblank, hlast.read]

end Operand.ReadsBack

section Mnemonics

theorem NullaryOp.read_mnemonic (op : NullaryOp) :
    readMnemonic? op.mnemonic.toList = some op.backing ∧ op.mnemonic.toList ≠ [] ∧
      ∀ c ∈ op.mnemonic.toList, IsPlain c := by
  refine ⟨?_, ?_, forall_isPlain ?_⟩ <;> cases op <;> decide

theorem UnaryOp.read_mnemonic (op : UnaryOp) :
    readMnemonic? op.mnemonic.toList = some op.backing ∧
      ∀ c ∈ op.mnemonic.toList, IsPlain c := by
  refine ⟨?_, forall_isPlain ?_⟩ <;> cases op <;> decide

theorem BinaryOp.read_mnemonic (op : BinaryOp) :
    readMnemonic? op.mnemonic.toList = some op.backing ∧
      ∀ c ∈ op.mnemonic.toList, IsPlain c := by
  refine ⟨?_, forall_isPlain ?_⟩ <;> cases op <;> decide

end Mnemonics

namespace Instruction

theorem newline_not_mem_symbol (target : Target) {name : Option String}
    (h : ∀ text ∈ name, '\n' ∉ String.toList text) :
    '\n' ∉ (target.symbolHead ++ name.getD "None").toList := by
  have hhead : '\n' ∉ target.symbolHead.toList := by cases target <;> decide
  have hname : '\n' ∉ (name.getD "None").toList := by
    cases name with
    | none => decide
    | some text => exact h text rfl
  simp [hhead, hname]

-- A line holds what its instruction is backed by, and nothing else.
theorem rendered_reads_back {instruction : Instruction} {statement : Statement} (target : Target)
    (h : instruction.backing? = some statement) (hline : instruction.IsOneLine) :
    ∃ line, instruction.rendered target = .ok line ∧ '\n' ∉ line.toList ∧
      readLine? line.toList = some statement := by
  cases instruction with
  | directive kind argument =>
    cases h
    cases kind with
    | text => exact ⟨"\t.text", rfl, by decide, readLine?_dot _⟩
    | globl =>
      have hsymbol := newline_not_mem_symbol target hline
      refine ⟨_, rfl, ?_, ?_⟩
      · rw [String.append_assoc, String.toList_append, List.mem_append, not_or]
        exact ⟨by decide, hsymbol⟩
      · rw [String.append_assoc, String.toList_append]
        exact readLine?_dot _
  | label name =>
    cases h
    have hsymbol := newline_not_mem_symbol target hline
    refine ⟨_, rfl, ?_, ?_⟩
    · rw [String.toList_append, List.mem_append, not_or]
      exact ⟨hsymbol, by decide⟩
    · rw [String.toList_append]
      exact readLine?_colon _
  | nullary op =>
    cases h
    obtain ⟨hread, hne, hplain⟩ := op.read_mnemonic
    refine ⟨_, rfl, ?_, ?_⟩
    · rw [String.toList_append, List.mem_append, not_or]
      exact ⟨by decide, fun hmem => (hplain _ hmem).2.1 rfl⟩
    · rw [String.toList_append]
      exact readLine?_bare hread hne hplain
  | unary op operand =>
    obtain ⟨backing, hbacking, hstatement⟩ := Option.bind_eq_some_iff.mp h
    cases hstatement
    obtain ⟨text, htext, hback⟩ := Operand.rendered_reads_back hbacking
    obtain ⟨hread, hplain⟩ := op.read_mnemonic
    have htab : '\t' ∉ text.toList := fun hmem => (hback.plain _ hmem).1 rfl
    refine ⟨"\t" ++ op.mnemonic ++ "\t" ++ text, ?_, ?_, ?_⟩
    · simp only [rendered, htext]
      rfl
    · simp only [String.toList_append, List.mem_append, not_or]
      exact ⟨⟨⟨by decide, fun hmem => (hplain _ hmem).2.1 rfl⟩, by decide⟩,
        fun hmem => (hback.plain _ hmem).2.1 rfl⟩
    · have hfields := readLine?_fields hread hplain hback.read_one htab (List.suffix_refl _)
        hback.nonempty hback.plain
      simpa using hfields
  | binary op source destination =>
    obtain ⟨first, hfirst, h⟩ := Option.bind_eq_some_iff.mp h
    obtain ⟨second, hsecond, hstatement⟩ := Option.bind_eq_some_iff.mp h
    cases hstatement
    obtain ⟨text, htext, hback⟩ := Operand.rendered_reads_back hfirst
    obtain ⟨other, hother, hlast⟩ := Operand.rendered_reads_back hsecond
    obtain ⟨hread, hplain⟩ := op.read_mnemonic
    have htab : '\t' ∉ text.toList ++ ',' :: ' ' :: other.toList :=
      not_mem_operands hback.plain hlast.plain (by decide) (by decide) (by decide)
    have hsuffix : other.toList <:+ text.toList ++ ',' :: ' ' :: other.toList :=
      ⟨text.toList ++ [',', ' '], by simp⟩
    refine ⟨"\t" ++ op.mnemonic ++ "\t" ++ text ++ ", " ++ other, ?_, ?_, ?_⟩
    · simp only [rendered, htext, hother]
      rfl
    · simp only [String.toList_append, List.mem_append, not_or]
      exact ⟨⟨⟨⟨⟨by decide, fun hmem => (hplain _ hmem).2.1 rfl⟩, by decide⟩,
        fun hmem => (hback.plain _ hmem).2.1 rfl⟩, by decide⟩,
        fun hmem => (hlast.plain _ hmem).2.1 rfl⟩
    · have hfields := readLine?_fields hread hplain (hback.read_two hlast) htab hsuffix
        hlast.nonempty hlast.plain
      simpa using hfields
  | foreign text => cases h

end Instruction

-- The statements that the lines of code are read back as.
def Backs (code : List Instruction) (statements : List Statement) : Prop :=
  List.Forall₂ (fun instruction statement => instruction.backing? = some statement) code statements

-- What is read after the code: the trailer, and the empty line that the last newline begins.
def Target.asides (target : Target) : List Statement :=
  target.trailer.map (fun _ => .aside) ++ [.aside]

theorem Target.trailer_reads_back (target : Target) :
    target.trailer.mapM (fun line => readLine? line.toList) =
      some (target.trailer.map fun _ => .aside) := by
  cases target with
  | linux =>
    have hread := readLine?_dot "section .note.GNU-stack,\"\",@progbits".toList
    simp only [trailer, List.mapM_cons, List.mapM_nil, List.map_cons, List.map_nil]
    exact congrArg (fun statement? => statement?.bind fun statement => some [statement]) hread
  | darwin => rfl

theorem lines_read_back (target : Target) {code : List Instruction} {statements : List Statement}
    (h : Backs code statements) (hline : ∀ instruction ∈ code, instruction.IsOneLine) :
    ∃ lines, code.mapM (fun instruction => instruction.rendered target) = .ok lines ∧
      (∀ line ∈ lines, '\n' ∉ line.toList) ∧ lines.length = code.length ∧
      lines.mapM (fun line => readLine? line.toList) = some statements := by
  induction h with
  | nil => exact ⟨[], rfl, by simp, rfl, rfl⟩
  | @cons instruction statement rest others hfirst _ ih =>
    obtain ⟨line, hrendered, hnewline, hread⟩ :=
      Instruction.rendered_reads_back target hfirst (hline instruction (by simp))
    obtain ⟨lines, hlines, hnewlines, hlength, hreads⟩ :=
      ih fun instruction hmem => hline instruction (by simp [hmem])
    refine ⟨line :: lines, ?_, ?_, ?_, ?_⟩
    · rw [List.mapM_cons, hrendered, hlines]
      rfl
    · intro other hmem
      rcases List.mem_cons.mp hmem with rfl | hmem
      · exact hnewline
      · exact hnewlines other hmem
    · simp [hlength]
    · rw [List.mapM_cons, hread, hreads]
      rfl

-- The text of code reads back as what the code is backed by.
theorem render_reads_back (target : Target) {code : List Instruction}
    {statements : List Statement} (hne : code ≠ []) (h : Backs code statements)
    (hline : ∀ instruction ∈ code, instruction.IsOneLine) :
    ∃ text, render target code = .ok text ∧
      readText? text = some (statements ++ target.asides) := by
  obtain ⟨lines, hlines, hnewline, hlength, hread⟩ := lines_read_back target h hline
  refine ⟨"\n".intercalate (lines ++ target.trailer) ++ "\n", ?_, ?_⟩
  · simp only [render, hlines]
    rfl
  · rw [Target.asides, ← List.append_assoc]
    apply readText?_lines
    · intro hnil
      have hlines : lines = [] := (List.append_eq_nil_iff.mp hnil).1
      rw [hlines, List.length_nil] at hlength
      exact hne (List.length_eq_zero_iff.mp hlength.symm)
    · intro line hmem
      rcases List.mem_append.mp hmem with hmem | hmem
      · exact hnewline line hmem
      · exact (target.line_of_mem_trailer line hmem).2
    · rw [List.mapM_append, hread, target.trailer_reads_back]
      rfl

end TinyC
