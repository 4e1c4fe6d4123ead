import TinyC.Proofs.Assembly.Simulation

namespace TinyC

namespace Node

-- All constants are words without a sign.
def HasNarrowConstants : Node → Prop
  | constant value _ => 0 ≤ value ∧ value ≤ 0xFFFFFFFF
  | group inner _ => inner.HasNarrowConstants
  | unary _ operand _ => operand.HasNarrowConstants
  | binary _ left _ right _ => left.HasNarrowConstants ∧ right.HasNarrowConstants
  | ret value _ => value.HasNarrowConstants
  | function _ body _ => body.HasNarrowConstants
  | program main _ => main.HasNarrowConstants
  | bare _ => True

def functionName? : Node → Option String
  | program (function name _ _) _ => name
  | _ => none

end Node

-- An instruction whose line can be read back.
def Instruction.IsPrintable (instruction : Instruction) : Prop :=
  instruction.backing?.isSome ∧ instruction.IsOneLine

theorem exists_backs {code : List Instruction}
    (h : ∀ instruction ∈ code, instruction.IsPrintable) : ∃ statements, Backs code statements := by
  induction code with
  | nil => exact ⟨[], .nil⟩
  | cons instruction rest ih =>
    obtain ⟨statement, hstatement⟩ := Option.isSome_iff_exists.mp (h instruction (by simp)).1
    obtain ⟨statements, hstatements⟩ := ih fun other hmem => h other (by simp [hmem])
    exact ⟨statement :: statements, .cons hstatement hstatements⟩

theorem UnaryOperator.isPrintable_code (operator : UnaryOperator) :
    ∀ instruction ∈ operator.code, instruction.IsPrintable := by
  cases operator <;>
    simp [code, Instruction.IsPrintable, Instruction.IsOneLine, Instruction.backing?,
      Operand.backing?]

theorem BinaryOperator.isPrintable_code (operator : BinaryOperator) :
    ∀ instruction ∈ operator.code, instruction.IsPrintable := by
  cases operator <;>
    simp [code, Instruction.IsPrintable, Instruction.IsOneLine, Instruction.backing?,
      Operand.backing?]

theorem Node.Supported.isPrintable_code {node : Node} (h : node.Supported)
    (hnarrow : node.HasNarrowConstants) : ∀ instruction ∈ node.code, instruction.IsPrintable := by
  induction h with
  | constant value place =>
    obtain ⟨hlow, hhigh⟩ := hnarrow
    have hvalue : 0 ≤ value ∧ value < 0x100000000 := ⟨hlow, by omega⟩
    have hbacking : (Operand.immediate value).backing? .long =
        some (.immediate (Word.ofInt value)) := if_pos hvalue
    intro instruction hmem
    rw [List.mem_singleton.mp hmem]
    refine ⟨?_, trivial⟩
    simp only [Instruction.backing?, hbacking]
    rfl
  | group place _ ih => exact ih hnarrow
  | unary operator place _ ih =>
    rw [code_unary]
    intro instruction hmem
    rcases List.mem_append.mp hmem with hmem | hmem
    · exact ih hnarrow instruction hmem
    · exact operator.isPrintable_code instruction hmem
  | @binary tier operator left right place hop _ _ ihleft ihright =>
    have hpush : Instruction.IsPrintable (.unary .push (.register .accumulator)) := ⟨rfl, trivial⟩
    have hpop : Instruction.IsPrintable (.unary .pop (.register .scratch)) := ⟨rfl, trivial⟩
    rw [code_binary hop]
    intro instruction hmem
    simp only [List.mem_append, List.mem_singleton] at hmem
    rcases hmem with (((hmem | rfl) | hmem) | rfl) | hmem
    · exact ihleft hnarrow.1 instruction hmem
    · exact hpush
    · exact ihright hnarrow.2 instruction hmem
    · exact hpop
    · exact operator.isPrintable_code instruction hmem

theorem isPrintable_functionHead {name : Option String}
    (h : ∀ text ∈ name, '\n' ∉ String.toList text) :
    ∀ instruction ∈ functionHead name, instruction.IsPrintable := by
  intro instruction hmem
  simp only [functionHead, List.mem_cons, List.not_mem_nil, or_false] at hmem
  rcases hmem with rfl | rfl | rfl
  · refine ⟨rfl, ?_⟩
    intro text htext
    cases htext
    decide
  · exact ⟨rfl, h⟩
  · exact ⟨rfl, h⟩

theorem Simulates.start {machine : Machine} {processor : Processor}
    (h : ∀ slot : Register, processor.long slot.backing = machine.registers slot) :
    Simulates machine processor ⟨false, 0⟩ machine processor :=
  ⟨⟨h, ⟨[], rfl, rfl, rfl⟩, by simp⟩, fun hcompared => by cases hcompared⟩

-- At each place of code that may be followed to its end the two sides mirror each other, with
-- equal flags where the next instruction sets on a condition.
theorem Simulates.execute_take {code : List Instruction} {statements : List Processor.Statement}
    {machine : Machine} {processor : Processor} {track final : Track}
    (h : Simulates machine processor track machine processor)
    (hfinal : track.after? code = some final) (hcode : Backs code statements)
    (effect : Machine.FlagEffect) (processorEffect : Processor.FlagEffect) (n : Nat) :
    Agree machine processor
      (fun next now => (∃ height, Mirrors machine processor height next now) ∧
        ∀ operand, code[n]? = some (.unary .sete operand) → now.zeroFlag = next.zeroFlag)
      (machine.execute effect (code.take n))
      (processor.execute processorEffect (statements.take n)) := by
  obtain ⟨middle, hmiddle, hrest⟩ := Track.after?_take hfinal n
  have hrun := h.execute effect processorEffect hmiddle (List.forall₂_take n hcode)
  refine hrun.mono ?_
  intro next now hsimulates
  refine ⟨⟨_, hsimulates.toMirrors⟩, ?_⟩
  intro operand hoperand
  apply hsimulates.flag
  have hdrop : code.drop n = .unary .sete operand :: code.drop (n + 1) := by
    obtain ⟨hn, hget⟩ := List.getElem?_eq_some_iff.mp hoperand
    rw [List.drop_eq_getElem_cons hn, hget]
  rw [hdrop] at hrest
  obtain ⟨_, hnext, _⟩ := Option.bind_eq_some_iff.mp hrest
  cases operand with
  | register slot =>
    simp only [Track.next?, Option.ite_none_right_eq_some] at hnext
    exact hnext.1
  | _ => cases hnext

-- The text of a program whose function name holds no newline does what its code does. It is
-- read line by line, and the processor starts with the words of the machine in the lower
-- halves of its registers, whatever else it holds. After each instruction the two mirror each
-- other. In the end both have faulted, or `eax` holds the word of the accumulator and the stack
-- is back where it was.
theorem rendered_text_simulates_code {program : Node} {code : List Instruction} {log : Log}
    (hcode : (generate program log).1 = .ok code) (hconstants : program.HasNarrowConstants)
    (hname : ∀ name ∈ program.functionName?, '\n' ∉ String.toList name) (target : Target) :
    ∃ text statements, render target code = .ok text ∧
      Processor.readText? text = some statements ∧
      ∀ (effect : Machine.FlagEffect) (processorEffect : Processor.FlagEffect)
        (machine : Machine) (processor : Processor),
        (∀ slot : Register, processor.long slot.backing = machine.registers slot) →
        (∀ n ≤ code.length, Agree machine processor
          (fun next now => (∃ height, Mirrors machine processor height next now) ∧
            ∀ operand, code[n]? = some (.unary .sete operand) → now.zeroFlag = next.zeroFlag)
          (machine.execute effect (code.take n))
          (processor.execute processorEffect (statements.take n))) ∧
        ((∃ final last, machine.execute effect code = .error (.returned final) ∧
            processor.execute processorEffect statements = .error (.returned last) ∧
            last.long .rax = final.registers .accumulator ∧
            last.stackPointer = processor.stackPointer ∧ last.stack = processor.stack) ∨
          (machine.execute effect code = .error .faulted ∧
            processor.execute processorEffect statements = .error .faulted)) := by
  obtain ⟨name, value, hprogram, rfl⟩ := returns_of_generate hcode
  obtain ⟨⟨bodyPlace, mainPlace, place, rfl⟩, hvalue⟩ := hprogram
  have hprintable : ∀ instruction ∈ functionHead name ++ value.code, instruction.IsPrintable := by
    intro instruction hmem
    rcases List.mem_append.mp hmem with hmem | hmem
    · exact isPrintable_functionHead hname instruction hmem
    · exact hvalue.isPrintable_code hconstants instruction hmem
  obtain ⟨body, hbody⟩ := exists_backs hprintable
  have hbacks : Backs (functionCode name value) (body ++ [.operation .ret []]) :=
    List.rel_append hbody (.cons rfl .nil)
  have hlines : ∀ instruction ∈ functionCode name value, instruction.IsOneLine := by
    intro instruction hmem
    rcases List.mem_append.mp hmem with hmem | hmem
    · exact (hprintable instruction hmem).2
    · rw [List.mem_singleton.mp hmem]
      trivial
  obtain ⟨text, htext, hread⟩ := render_reads_back target (by simp [functionCode]) hbacks hlines
  refine ⟨text, _, htext, hread, ?_⟩
  intro effect processorEffect machine processor hregisters
  have hstart := Simulates.start hregisters
  obtain ⟨isCompared, htrack⟩ := hvalue.after?_code ⟨false, 0⟩
  have hend : Track.after? ⟨false, 0⟩ (functionCode name value) = some ⟨isCompared, 0⟩ := by
    rw [functionCode, List.append_assoc, Track.after?_append]
    simp only [functionHead, Track.after?, Track.next?, Option.bind_some, Track.after?_append,
      htrack]
  constructor
  · intro n hn
    rw [hbacks.length_eq] at hn
    rw [List.take_append_of_le_length hn]
    exact hstart.execute_take hend hbacks effect processorEffect n
  · have hvalueEnd : Track.after? ⟨false, 0⟩ (functionHead name ++ value.code) =
        some ⟨isCompared, 0⟩ := htrack
    have hrun := hstart.execute effect processorEffect hvalueEnd hbody
    have hleaves := Machine.leaves_functionCode effect hvalue name machine
    rw [List.append_assoc]
    cases hresult : value.value? with
    | none =>
      rw [hresult] at hleaves
      rw [hleaves] at hrun
      exact .inr ⟨Machine.execute_append_error effect hleaves _,
        Processor.execute_append_error processorEffect hrun.of_faulted _⟩
    | some word =>
      rw [hresult] at hleaves
      obtain ⟨final, hfinal, _, _⟩ := hleaves
      rw [hfinal] at hrun
      obtain ⟨last, hlast, hsimulates⟩ := hrun.of_ok
      obtain ⟨above, habove, hstack, _⟩ := hsimulates.slots
      refine .inl ⟨final, last, Machine.execute_append_ok effect hfinal _,
        Processor.execute_append_ok processorEffect hlast _, ?_, ?_, ?_⟩
      · exact hsimulates.registers .accumulator
      · rw [hsimulates.pointer]
        simp
      · rw [hstack, List.length_eq_zero_iff.mp habove]
        rfl

def blankMachine : Machine := ⟨fun _ => 0, false, []⟩

def blankProcessor : Processor := ⟨fun _ => 0, false, 0, []⟩

-- A function that returns `7 / (-2)`.
def sevenByMinusTwoProgram : Node :=
  .program (.function (some "f") (.ret sevenByMinusTwo .start) .start) .start

theorem rendered_text_simulates_code_sevenByMinusTwo :
    sevenByMinusTwoProgram.HasNarrowConstants ∧
      ∃ text statements, render .darwin (functionCode (some "f") sevenByMinusTwo) = .ok text ∧
        Processor.readText? text = some statements ∧
        ∃ last, blankProcessor.execute (fun _ _ => false) statements = .error (.returned last) ∧
          last.long .rax = -3 ∧ last.stackPointer = 0 ∧ last.stack = [] := by
  have hcode : (generate sevenByMinusTwoProgram .silent).1 =
      .ok (functionCode (some "f") sevenByMinusTwo) := by
    rw [sevenByMinusTwoProgram, generate_of_returns ⟨⟨_, _, _, rfl⟩, sevenByMinusTwo_supported⟩]
  have hconstants : sevenByMinusTwoProgram.HasNarrowConstants :=
    ⟨⟨by decide, by decide⟩, ⟨by decide, by decide⟩⟩
  have hname : ∀ name ∈ sevenByMinusTwoProgram.functionName?, '\n' ∉ String.toList name := by
    intro name hmem
    cases hmem
    decide
  obtain ⟨text, statements, htext, hread, hruns⟩ :=
    rendered_text_simulates_code hcode hconstants hname .darwin
  have hregisters : ∀ slot : Register,
      blankProcessor.long slot.backing = blankMachine.registers slot := by
    intro slot
    cases slot <;> rfl
  obtain ⟨_, hend⟩ := hruns (fun _ _ => false) (fun _ _ => false) blankMachine blankProcessor
    hregisters
  have hmachine : ∃ final, blankMachine.execute (fun _ _ => false)
      (functionCode (some "f") sevenByMinusTwo) = .error (.returned final) ∧
        final.registers .accumulator = -3 := ⟨_, rfl, by decide⟩
  obtain ⟨final, hfinal, hvalue⟩ := hmachine
  rcases hend with ⟨other, last, hother, hlast, hword, hpointer, hstack⟩ | ⟨hfault, _⟩
  · rw [hfinal] at hother
    cases hother
    exact ⟨hconstants, text, statements, htext, hread, last, hlast, hword.trans hvalue, hpointer,
      hstack⟩
  · rw [hfinal] at hfault
    cases hfault

-- A function that returns two, and whose name goes on with a return on a line of its own.
def brokenName : Node :=
  .program (.function (some "\n\tret") (.ret (.constant 2 .start) .start) .start) .start

def brokenNameCode : List Instruction := functionCode (some "\n\tret") (.constant 2 .start)

-- The return in the name comes before the code of the function.
def brokenNameText : String :=
  "\t.text\n\t.globl\t\n\tret\n\n\tret:\n\tmovl\t$2, %eax\n\tret\n" ++
    "\t.section .note.GNU-stack,\"\",@progbits\n"

def brokenNameStatements : List Processor.Statement :=
  [.aside, .aside, .operation .ret [], .aside, .aside,
   .operation .movl [.immediate 2, .register .long .rax], .operation .ret [], .aside, .aside]

theorem render_brokenNameCode : render .linux brokenNameCode = .ok brokenNameText := by
  have htwo : Numeral.written 2 = .ok "2" := by
    rw [Numeral.written_of_word (by decide), Numeral.decimalDigits_of_lt (by decide)]
    rfl
  have hmov : Instruction.rendered .linux (.binary .mov (.immediate 2) (.register .accumulator)) =
      .ok "\tmovl\t$2, %eax" := by
    simp only [Instruction.rendered, Operand.rendered, htwo]
    rfl
  simp only [render, brokenNameCode, functionCode, functionHead, Node.code, List.cons_append,
    List.nil_append, List.mapM_cons, hmov]
  rfl

theorem newline_in_name_loses_value :
    generate brokenName .silent = (.ok brokenNameCode, .silent) ∧ brokenName.HasNarrowConstants ∧
      (∀ slot : Register, blankProcessor.long slot.backing = blankMachine.registers slot) ∧
      render .linux brokenNameCode = .ok brokenNameText ∧
      Processor.readText? brokenNameText = some brokenNameStatements ∧
      ∃ final last,
        blankMachine.execute (fun _ _ => false) brokenNameCode = .error (.returned final) ∧
        blankProcessor.execute (fun _ _ => false) brokenNameStatements = .error (.returned last) ∧
        last.long .rax ≠ final.registers .accumulator := by
  refine ⟨rfl, ⟨by decide, by decide⟩, ?_, render_brokenNameCode, by decide, _, _, rfl, rfl,
    by decide⟩
  intro slot
  cases slot <;> rfl

end TinyC
