import TinyC.Proofs.Assembly.Processor
import TinyC.Proofs.Numeral

namespace TinyC

namespace Processor

-- The names of the registers and of their parts in assembly text.
def registerNames : List (String × Width × QuadRegister) :=
  [("rax", .quad, .rax), ("eax", .long, .rax), ("al", .byte, .rax),
   ("rcx", .quad, .rcx), ("ecx", .long, .rcx), ("cl", .byte, .rcx),
   ("rdx", .quad, .rdx), ("edx", .long, .rdx), ("dl", .byte, .rdx),
   ("rsi", .quad, .rsi), ("esi", .long, .rsi), ("sil", .byte, .rsi)]

-- The operations and their names in assembly text.
def mnemonicNames : List (String × Mnemonic) :=
  [("ret", .ret), ("cltd", .cltd), ("pushq", .pushq), ("popq", .popq), ("negl", .negl),
   ("notl", .notl), ("sete", .sete), ("idivl", .idivl), ("movl", .movl), ("cmpl", .cmpl),
   ("addl", .addl), ("subl", .subl), ("imull", .imull)]

def readMnemonic? (text : List Char) : Option Mnemonic := mnemonicNames.lookup (String.ofList text)

-- Immediates are decimal and fit in a word.
def readOperand? : List Char → Option Operand
  | '$' :: digits =>
    let value := Numeral.spelled .ten digits
    if digits ≠ [] ∧ digits.all Char.isDigit ∧ value < 0x100000000 then
      some (.immediate (BitVec.ofNat 32 value))
    else none
  | '%' :: name =>
    (registerNames.lookup (String.ofList name)).map fun (width, quad) => .register width quad
  | _ => none

-- The operands of an operation are divided by commas, and blanks may precede each.
def readOperands? : List (List Char) → Option (List Operand)
  | [] => some []
  | [operands] =>
    (operands.splitOn ',').mapM fun operand => readOperand? (operand.dropWhile (· == ' '))
  | _ => none

-- A label ends in a colon. All else is indented by a tab, and a directive begins with a dot.
def readLine? (line : List Char) : Option Statement :=
  if line = [] ∨ line.getLast? = some ':' then some .aside
  else
    match line.splitOn '\t' with
    | [] :: mnemonic :: fields =>
      if mnemonic.head? = some '.' then some .aside
      else do
        let mnemonic ← readMnemonic? mnemonic
        let operands ← readOperands? fields
        return .operation mnemonic operands
    | _ => none

def readText? (text : String) : Option (List Statement) :=
  (text.toList.splitOn '\n').mapM readLine?

-- What the characters of mnemonics and operands are not.
def IsPlain (c : Char) : Prop := c ≠ '\t' ∧ c ≠ '\n' ∧ c ≠ ' ' ∧ c ≠ ',' ∧ c ≠ ':' ∧ c ≠ '.'

instance (c : Char) : Decidable (IsPlain c) := inferInstanceAs (Decidable (_ ∧ _))

theorem forall_isPlain {text : List Char} (h : (text.all fun c => IsPlain c) = true) :
    ∀ c ∈ text, IsPlain c := fun c hc => of_decide_eq_true (List.all_eq_true.mp h c hc)

theorem isPlain_of_isDigit {c : Char} (h : c.isDigit) : IsPlain c := by
  refine ⟨?_, ?_, ?_, ?_, ?_, ?_⟩ <;> (rintro rfl; revert h; decide)

theorem isPlain_of_isAlpha {c : Char} (h : c.isAlpha) : IsPlain c := by
  refine ⟨?_, ?_, ?_, ?_, ?_, ?_⟩ <;> (rintro rfl; revert h; decide)

section Lines

variable {mnemonic : Mnemonic} {name : List Char}

theorem splitOn_tab_cons (rest : List Char) :
    ('\t' :: rest).splitOn '\t' = [] :: rest.splitOn '\t' := by
  simp [List.splitOn_cons_eq_if_modifyHead]

theorem splitOn_tab (h : ∀ c ∈ name, IsPlain c) : name.splitOn '\t' = [name] :=
  List.splitOn_eq_singleton fun hmem => (h _ hmem).1 rfl

theorem splitOn_tab_bare (h : ∀ c ∈ name, IsPlain c) :
    ('\t' :: name).splitOn '\t' = [[], name] := by
  rw [splitOn_tab_cons, splitOn_tab h]

theorem splitOn_tab_fields {fields : List Char} (h : ∀ c ∈ name, IsPlain c)
    (htab : '\t' ∉ fields) :
    ('\t' :: (name ++ '\t' :: fields)).splitOn '\t' = [[], name, fields] := by
  have hname : '\t' ∉ name := fun hmem => (h _ hmem).1 rfl
  rw [splitOn_tab_cons, List.splitOn_append_cons_self_of_not_mem hname,
    List.splitOn_eq_singleton htab]

theorem getLast?_ne_colon (c : Char) (front : List Char) {text : List Char} (hne : text ≠ [])
    (h : ∀ c ∈ text, IsPlain c) : ¬ (c :: front ++ text = [] ∨
      (c :: front ++ text).getLast? = some ':') := by
  rintro (hnil | hlast)
  · simp at hnil
  · rw [List.getLast?_append, List.getLast?_eq_some_getLast hne, Option.some_or] at hlast
    rw [← List.getLast?_eq_some_getLast hne] at hlast
    exact (h _ (List.mem_of_getLast? hlast)).2.2.2.2.1 rfl

theorem head?_ne_dot (h : ∀ c ∈ name, IsPlain c) : ¬ name.head? = some '.' := by
  intro hhead
  exact (h _ (List.mem_of_head? hhead)).2.2.2.2.2 rfl

-- A line of a mnemonic alone.
theorem readLine?_bare (hread : readMnemonic? name = some mnemonic) (hne : name ≠ [])
    (hplain : ∀ c ∈ name, IsPlain c) :
    readLine? ('\t' :: name) = some (.operation mnemonic []) := by
  have hlast : ¬ ('\t' :: name = [] ∨ ('\t' :: name).getLast? = some ':') :=
    getLast?_ne_colon '\t' [] hne hplain
  rw [readLine?, if_neg hlast, splitOn_tab_bare hplain]
  simp [head?_ne_dot hplain, hread, readOperands?]

-- A line of a mnemonic and its operands.
theorem readLine?_fields {fields last : List Char} {operands : List Operand}
    (hread : readMnemonic? name = some mnemonic) (hplain : ∀ c ∈ name, IsPlain c)
    (hfields : readOperands? [fields] = some operands) (htab : '\t' ∉ fields)
    (hsuffix : last <:+ fields) (hne : last ≠ []) (hlastPlain : ∀ c ∈ last, IsPlain c) :
    readLine? ('\t' :: (name ++ '\t' :: fields)) = some (.operation mnemonic operands) := by
  obtain ⟨front, rfl⟩ := hsuffix
  have hlast := getLast?_ne_colon '\t' (name ++ '\t' :: front) hne hlastPlain
  simp only [List.cons_append, List.append_assoc] at hlast
  rw [readLine?, if_neg hlast, splitOn_tab_fields hplain htab]
  simp [head?_ne_dot hplain, hread, hfields]

-- A line of a label.
theorem readLine?_colon (front : List Char) : readLine? (front ++ [':']) = some .aside := by
  rw [readLine?, if_pos (.inr (by simp))]

-- A line of a directive, whatever it says.
theorem readLine?_dot (rest : List Char) : readLine? ('\t' :: '.' :: rest) = some .aside := by
  by_cases hlabel : '\t' :: '.' :: rest = [] ∨ ('\t' :: '.' :: rest).getLast? = some ':'
  · rw [readLine?, if_pos hlabel]
  · cases hrest : rest.splitOn '\t' with
    | nil => exact absurd hrest (List.splitOn_ne_nil _ _)
    | cons first others =>
      have hsplit : ('\t' :: '.' :: rest).splitOn '\t' = [] :: ('.' :: first) :: others := by
        simp [List.splitOn_cons_eq_if_modifyHead, hrest]
      rw [readLine?, if_neg hlabel, hsplit]
      rfl

theorem splitOn_comma {text : List Char} (h : ∀ c ∈ text, IsPlain c) :
    text.splitOn ',' = [text] :=
  List.splitOn_eq_singleton fun hmem => (h _ hmem).2.2.2.1 rfl

theorem splitOn_comma_blank {text other : List Char} (h : ∀ c ∈ text, IsPlain c)
    (hother : ∀ c ∈ other, IsPlain c) :
    (text ++ ',' :: ' ' :: other).splitOn ',' = [text, ' ' :: other] := by
  have hcomma : ',' ∉ text := fun hmem => (h _ hmem).2.2.2.1 rfl
  rw [List.splitOn_append_cons_self_of_not_mem hcomma, List.splitOn_eq_singleton]
  simp only [List.mem_cons, not_or]
  exact ⟨by decide, fun hmem => (hother _ hmem).2.2.2.1 rfl⟩

-- What divides lines and their fields does not stand in the operands.
theorem not_mem_operands {text other : List Char} {c : Char} (h : ∀ c ∈ text, IsPlain c)
    (hother : ∀ c ∈ other, IsPlain c) (hc : ¬ IsPlain c) (hcomma : c ≠ ',') (hblank : c ≠ ' ') :
    c ∉ text ++ ',' :: ' ' :: other := by
  simp only [List.mem_append, List.mem_cons, not_or]
  exact ⟨fun hmem => hc (h c hmem), hcomma, hblank, fun hmem => hc (hother c hmem)⟩

theorem dropWhile_blank {text : List Char} (h : ∀ c ∈ text, IsPlain c) :
    text.dropWhile (· == ' ') = text := by
  cases text with
  | nil => rfl
  | cons c rest =>
    have hc := (h c (by simp)).2.2.1
    simp [hc]

end Lines

theorem intercalate_append_newline {lines : List (List Char)} (h : lines ≠ []) :
    ['\n'].intercalate lines ++ ['\n'] = ['\n'].intercalate (lines ++ [[]]) := by
  induction lines with
  | nil => exact absurd rfl h
  | cons line rest ih =>
    cases rest with
    | nil => simp [List.intercalate_cons_cons]
    | cons next others =>
      have hrest := ih (List.cons_ne_nil _ _)
      rw [List.cons_append, List.cons_append, List.intercalate_cons_cons,
        List.intercalate_cons_cons, ← List.cons_append, ← hrest, List.append_assoc]

-- A text of lines that each end in a newline is split into the lines, and then an empty line.
theorem splitOn_newline_lines {lines : List String} (hne : lines ≠ [])
    (hline : ∀ line ∈ lines, '\n' ∉ line.toList) :
    ("\n".intercalate lines ++ "\n").toList.splitOn '\n' = lines.map String.toList ++ [[]] := by
  have htext : ("\n".intercalate lines ++ "\n").toList =
      ['\n'].intercalate (lines.map String.toList ++ [[]]) := by
    rw [String.toList_append, String.toList_intercalate]
    exact intercalate_append_newline (by simpa using hne)
  have hsplit : ∀ line ∈ lines.map String.toList ++ [[]], '\n' ∉ line := by
    intro line hmem
    rw [List.mem_append, List.mem_map, List.mem_singleton] at hmem
    rcases hmem with ⟨source, hsource, rfl⟩ | rfl
    · exact hline source hsource
    · simp
  rw [htext, List.splitOn_intercalate _ hsplit (by simp)]

-- A text of lines that each end in a newline is read line by line, and then an empty line.
theorem readText?_lines {lines : List String} {statements : List Statement} (hne : lines ≠ [])
    (hline : ∀ line ∈ lines, '\n' ∉ line.toList)
    (hread : lines.mapM (fun line => readLine? line.toList) = some statements) :
    readText? ("\n".intercalate lines ++ "\n") = some (statements ++ [.aside]) := by
  have hlast : readLine? [] = some .aside := rfl
  rw [readText?, splitOn_newline_lines hne hline, List.mapM_append, List.mapM_map]
  simp only [Function.comp_def, hread]
  simp [hlast]

end Processor

theorem Target.line_of_mem_trailer (target : Target) :
    ∀ line ∈ target.trailer, line.toList ≠ [] ∧ '\n' ∉ line.toList := by
  cases target <;> decide

end TinyC
