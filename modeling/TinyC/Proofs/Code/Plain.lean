import TinyC.Code.Generator
import TinyC.Proofs.Code.Value

namespace TinyC

namespace Generator

-- Generation by recursion on the tree alone, without a list of waiting operators.
def plain : Node → Generator Unit
  | .constant value _ => emit (.binary .mov (.immediate value) (.register .accumulator))
  | .group inner _ => plain inner
  | .unary op operand place =>
    match UnaryOperator.ofSymbol? op with
    | none => throw (.unsupportedOperator op (.unary op operand place))
    | some operator => do
      plain operand
      emitAll operator.code
  | .binary tier left op right place =>
    match tier.ofSymbol? op with
    | none => throw (.unsupportedOperator op (.binary tier left op right place))
    | some operator => do
      plain left
      emit (.unary .push (.register .accumulator))
      plain right
      emit (.unary .pop (.register .scratch))
      emitAll operator.code
  | other => throw (.unhandledExpression other)

theorem throw_bind {α β : Type} (error : GenerateError) (next : α → Generator β) :
    ((throw error : Generator α) >>= next) = throw error := rfl

@[simp] theorem finish_nil : finish [] = pure () := rfl

theorem finish_cons (operator : BinaryOperator) (right : Generator Unit) (pending : Pending) :
    finish ((operator, right) :: pending) = (do
      emit (.unary .push (.register .accumulator))
      right
      emit (.unary .pop (.register .scratch))
      emitAll operator.code
      finish pending) := by
  change (do
    (do
      emit (.unary .push (.register .accumulator))
      right
      emit (.unary .pop (.register .scratch))
      emitAll operator.code)
    finish pending) = _
  simp only [bind_assoc]

-- Walking down the left operands first changes neither the code nor the first fault, since an
-- operator is checked before anything below it is generated.
theorem chain_eq (node : Node) (pending : Pending) :
    chain node pending = (do plain node; finish pending) := by
  induction node generalizing pending with
  | constant value place => rfl
  | group inner place ih => simp only [chain, plain, ih, finish_nil, bind_pure_unit]
  | unary op operand place ih =>
    cases h : UnaryOperator.ofSymbol? op with
    | none => simp only [chain, plain, h, throw_bind]
    | some operator => simp only [chain, plain, h, ih, finish_nil, bind_pure_unit, bind_assoc]
  | binary tier left op right place ihleft ihright =>
    cases h : tier.ofSymbol? op with
    | none => simp only [chain, plain, h, throw_bind]
    | some operator =>
      simp only [chain, plain, h, ihleft, ihright, finish_cons, finish_nil, bind_pure_unit,
        bind_assoc]
  | bare place => rfl
  | ret value place => rfl
  | function name body place => rfl
  | program main place => rfl

theorem expression_eq_plain (node : Node) : expression node = plain node := by
  simp only [expression, chain_eq, finish_nil, bind_pure_unit]

@[simp] theorem emitAll_nil : emitAll [] = pure () := rfl

theorem emitAll_cons (instruction : Instruction) (rest : List Instruction) :
    emitAll (instruction :: rest) = (do emit instruction; emitAll rest) := rfl

theorem emitAll_singleton (instruction : Instruction) :
    emitAll [instruction] = emit instruction := by
  simp only [emitAll_cons, emitAll_nil, bind_pure_unit]

theorem emitAll_append (first second : List Instruction) :
    emitAll (first ++ second) = (do emitAll first; emitAll second) := by
  induction first with
  | nil => simp only [List.nil_append, emitAll_nil, pure_bind]
  | cons instruction rest ih =>
    rw [List.cons_append, emitAll_cons, ih, emitAll_cons, bind_assoc]

end Generator

namespace Node

-- The code of a supported expression, operand by operand.
def code : Node → List Instruction
  | constant value _ => [.binary .mov (.immediate value) (.register .accumulator)]
  | group inner _ => inner.code
  | unary op operand _ =>
    match UnaryOperator.ofSymbol? op with
    | none => []
    | some operator => operand.code ++ operator.code
  | binary tier left op right _ =>
    match tier.ofSymbol? op with
    | none => []
    | some operator =>
      left.code ++ [.unary .push (.register .accumulator)] ++ right.code ++
        [.unary .pop (.register .scratch)] ++ operator.code
  | _ => []

theorem code_unary (operator : UnaryOperator) (operand : Node) (place : Position) :
    (unary operator.symbol operand place).code = operand.code ++ operator.code := by
  simp only [code, UnaryOperator.ofSymbol?_symbol]

theorem code_binary {tier : Tier} {operator : BinaryOperator} (h : operator ∈ tier.operators)
    (left right : Node) (place : Position) :
    (binary tier left operator.symbol right place).code =
      left.code ++ [.unary .push (.register .accumulator)] ++ right.code ++
        [.unary .pop (.register .scratch)] ++ operator.code := by
  simp only [code, Tier.ofSymbol?_symbol h]

end Node

namespace Generator

theorem plain_eq_emitAll {node : Node} (h : node.Supported) : plain node = emitAll node.code := by
  induction h with
  | constant value place => rw [Node.code, emitAll_singleton, plain]
  | group place _ ih => rw [Node.code, plain, ih]
  | unary operator place _ ih =>
    simp only [plain, UnaryOperator.ofSymbol?_symbol, Node.code_unary, emitAll_append, ih]
  | binary place hop _ _ ihleft ihright =>
    simp only [plain, Tier.ofSymbol?_symbol hop, Node.code_binary hop, emitAll_append,
      emitAll_singleton, ihleft, ihright, bind_assoc]

theorem run_bind_ok {α β : Type} {first : Generator α} {next : α → Generator β}
    {before middle : Emission} {value : α} (h : first.run.run before = (.ok value, middle)) :
    (first >>= next).run.run before = (next value).run.run middle := by
  rw [ExceptT.run_bind, StateT.run_bind, h]
  rfl

theorem run_bind_error {α β : Type} {first : Generator α} {next : α → Generator β}
    {before after : Emission} {error : GenerateError}
    (h : first.run.run before = (.error error, after)) :
    (first >>= next).run.run before = (.error error, after) := by
  rw [ExceptT.run_bind, StateT.run_bind, h]
  rfl

-- A generator that has succeeded has done so in each of its steps.
theorem of_bind_ok {α β : Type} {first : Generator α} {next : α → Generator β}
    {before after : Emission} {result : β}
    (h : (first >>= next).run.run before = (.ok result, after)) :
    ∃ value middle, first.run.run before = (.ok value, middle) ∧
      (next value).run.run middle = (.ok result, after) := by
  cases hfirst : first.run.run before with
  | mk outcome middle =>
    cases outcome with
    | error error =>
      rw [run_bind_error hfirst] at h
      cases h
    | ok value =>
      rw [run_bind_ok hfirst] at h
      exact ⟨value, middle, rfl, h⟩

theorem run_emit_silent (instruction : Instruction) (code : List Instruction) :
    (emit instruction).run.run ⟨code, .silent⟩ = (.ok (), ⟨instruction :: code, .silent⟩) := rfl

theorem run_emitAll_silent (instructions code : List Instruction) :
    (emitAll instructions).run.run ⟨code, .silent⟩ =
      (.ok (), ⟨instructions.reverse ++ code, .silent⟩) := by
  induction instructions generalizing code with
  | nil => rfl
  | cons instruction rest ih =>
    rw [emitAll_cons, run_bind_ok (run_emit_silent instruction code), ih]
    simp

-- Only supported expressions have code.
theorem supported_of_plain_ok {node : Node} {before after : Emission}
    (h : (plain node).run.run before = (.ok (), after)) : node.Supported := by
  induction node generalizing before after with
  | constant value place => exact .constant value place
  | group inner place ih => exact .group place (ih h)
  | unary op operand place ih =>
    cases hop : UnaryOperator.ofSymbol? op with
    | none =>
      simp only [plain, hop] at h
      cases h
    | some operator =>
      simp only [plain, hop] at h
      obtain ⟨_, _, hoperand, _⟩ := of_bind_ok h
      rw [UnaryOperator.symbol_of_ofSymbol? hop]
      exact .unary operator place (ih hoperand)
  | binary tier left op right place ihleft ihright =>
    cases hop : tier.ofSymbol? op with
    | none =>
      simp only [plain, hop] at h
      cases h
    | some operator =>
      simp only [plain, hop] at h
      obtain ⟨_, _, hleft, h⟩ := of_bind_ok h
      obtain ⟨_, _, _, h⟩ := of_bind_ok h
      obtain ⟨_, _, hright, _⟩ := of_bind_ok h
      obtain ⟨hmem, rfl⟩ := Tier.of_ofSymbol? hop
      exact .binary place hmem (ihleft hleft) (ihright hright)
  | bare place => cases h
  | ret value place => cases h
  | function name body place => cases h
  | program main place => cases h

end Generator

-- What stands before the code of a function's value.
def functionHead (name : Option String) : List Instruction :=
  [.directive .text (some ""), .directive .globl name, .label name]

-- The code of a function that returns a value.
def functionCode (name : Option String) (value : Node) : List Instruction :=
  functionHead name ++ value.code ++ [.nullary .ret]

-- A program of one function that returns a supported expression.
structure Node.Returns (program : Node) (name : Option String) (value : Node) : Prop where
  shape : ∃ bodyPlace mainPlace place,
    program = .program (.function name (.ret value bodyPlace) mainPlace) place
  supported : value.Supported

-- A program returns one expression under one name.
theorem Node.Returns.functional {program first second : Node} {firstName secondName : Option String}
    (hfirst : program.Returns firstName first) (hsecond : program.Returns secondName second) :
    firstName = secondName ∧ first = second := by
  obtain ⟨⟨_, _, _, rfl⟩, _⟩ := hfirst
  obtain ⟨⟨_, _, _, hshape⟩, _⟩ := hsecond
  cases hshape
  exact ⟨rfl, rfl⟩

theorem generate_of_returns {program value : Node} {name : Option String}
    (h : program.Returns name value) :
    generate program .silent = (.ok (functionCode name value), .silent) := by
  obtain ⟨⟨bodyPlace, mainPlace, place, rfl⟩, hvalue⟩ := h
  have hbody : (Generator.statement (.ret value bodyPlace)).run.run
      ⟨(functionHead name).reverse, .silent⟩ =
        (.ok (), ⟨(functionCode name value).reverse, .silent⟩) := by
    rw [Generator.statement, Generator.expression_eq_plain, Generator.plain_eq_emitAll hvalue,
      Generator.run_bind_ok (Generator.run_emitAll_silent _ _), Generator.run_emit_silent]
    simp [functionCode]
  have hrun : (Generator.function (.function name (.ret value bodyPlace) mainPlace)).run.run
      ⟨[], .silent⟩ = (.ok (), ⟨(functionCode name value).reverse, .silent⟩) := hbody
  simp only [generate, Generator.program, hrun]
  simp [Except.map]

namespace Generator

theorem code_of_emit_ok {instruction : Instruction} {before after : Emission}
    (h : (emit instruction).run.run before = (.ok (), after)) :
    after.code = instruction :: before.code := by
  obtain ⟨code, log⟩ := before
  cases log with
  | silent =>
    cases h
    rfl
  | recording lines =>
    unfold emit at h
    cases hshown : instruction.shown with
    | error fault =>
      simp only [hshown] at h
      cases h
    | ok shown =>
      simp only [hshown] at h
      cases h
      rfl

theorem code_of_emitAll_ok {instructions : List Instruction} {before after : Emission}
    (h : (emitAll instructions).run.run before = (.ok (), after)) :
    after.code = instructions.reverse ++ before.code := by
  induction instructions generalizing before with
  | nil =>
    cases h
    rfl
  | cons instruction rest ih =>
    obtain ⟨_, middle, hfirst, hrest⟩ := of_bind_ok h
    rw [ih hrest, code_of_emit_ok hfirst]
    simp

theorem returns_of_statement_ok {body : Node} {before after : Emission}
    (h : (statement body).run.run before = (.ok (), after)) :
    ∃ value place, body = .ret value place ∧ value.Supported ∧
      after.code = (value.code ++ [Instruction.nullary .ret]).reverse ++ before.code := by
  cases body with
  | ret value place =>
    obtain ⟨_, middle, hvalue, hret⟩ := of_bind_ok h
    rw [expression_eq_plain] at hvalue
    have hsupported := supported_of_plain_ok hvalue
    rw [plain_eq_emitAll hsupported] at hvalue
    refine ⟨value, place, rfl, hsupported, ?_⟩
    rw [code_of_emit_ok hret, code_of_emitAll_ok hvalue]
    simp
  | _ => cases h

theorem returns_of_program_ok {tree : Node} {before after : Emission}
    (h : (program tree).run.run before = (.ok (), after)) :
    ∃ name value, tree.Returns name value ∧
      after.code = (functionCode name value).reverse ++ before.code := by
  cases tree with
  | program main place =>
    cases main with
    | function name body mainPlace =>
      obtain ⟨_, noted, hnote, h⟩ := of_bind_ok h
      obtain ⟨_, _, htext, h⟩ := of_bind_ok h
      obtain ⟨_, _, hglobl, h⟩ := of_bind_ok h
      obtain ⟨_, _, hlabel, h⟩ := of_bind_ok h
      obtain ⟨value, bodyPlace, rfl, hvalue, hcode⟩ := returns_of_statement_ok h
      have hnoted : noted.code = before.code := by
        cases hnote
        rfl
      refine ⟨name, value, ⟨⟨bodyPlace, mainPlace, place, rfl⟩, hvalue⟩, ?_⟩
      rw [hcode, code_of_emit_ok hlabel, code_of_emit_ok hglobl, code_of_emit_ok htext, hnoted]
      simp [functionCode, functionHead]
    | _ => cases h
  | _ => cases h

end Generator

-- Generation accepts nothing else, whether or not it is traced.
theorem returns_of_generate {program : Node} {code : List Instruction} {log : Log}
    (h : (generate program log).1 = .ok code) :
    ∃ name value, program.Returns name value ∧ code = functionCode name value := by
  cases hrun : (Generator.program program).run.run ⟨[], log⟩ with
  | mk outcome emission =>
    simp only [generate, hrun] at h
    cases outcome with
    | error error => cases h
    | ok _ =>
      obtain ⟨name, value, hprogram, hcode⟩ := Generator.returns_of_program_ok hrun
      refine ⟨name, value, hprogram, ?_⟩
      cases h
      rw [hcode]
      simp

-- A trace may stop generation, but it does not change the code.
theorem Node.Returns.code_eq {program value : Node} {name : Option String}
    (hprogram : program.Returns name value) {code : List Instruction} {log : Log}
    (h : (generate program log).1 = .ok code) : code = functionCode name value := by
  obtain ⟨otherName, other, hother, hcode⟩ := returns_of_generate h
  obtain ⟨rfl, rfl⟩ := hprogram.functional hother
  exact hcode

end TinyC
