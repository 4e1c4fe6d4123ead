import TinyC.Proofs.Code.Writable

namespace TinyC

namespace Node

-- The nodes of an expression that generation comes to, each operator before its operands and
-- operands from left to right.
def parts : Node → List Node
  | unary op operand place => unary op operand place :: operand.parts
  | group inner place => group inner place :: inner.parts
  | binary tier left op right place =>
    binary tier left op right place :: (left.parts ++ right.parts)
  | other => [other]

-- What is wrong with a node in the place of an expression, whatever its operands are.
def rootFault? : Node → Option GenerateError
  | constant _ _ => none
  | group _ _ => none
  | unary op operand place =>
    match UnaryOperator.ofSymbol? op with
    | none => some (.unsupportedOperator op (unary op operand place))
    | some _ => none
  | binary tier left op right place =>
    match tier.ofSymbol? op with
    | none => some (.unsupportedOperator op (binary tier left op right place))
    | some _ => none
  | other => some (.unhandledExpression other)

-- The first fault of an expression.
def fault? (node : Node) : Option GenerateError := node.parts.findSome? rootFault?

-- The code of an expression up to its first fault.
def emitted : Node → List Instruction
  | constant value _ => [.binary .mov (.immediate value) (.register .accumulator)]
  | group inner _ => inner.emitted
  | unary op operand _ =>
    match UnaryOperator.ofSymbol? op, operand.fault? with
    | none, _ => []
    | some _, some _ => operand.emitted
    | some operator, none => operand.emitted ++ operator.code
  | binary tier left op right _ =>
    match tier.ofSymbol? op, left.fault?, right.fault? with
    | none, _, _ => []
    | some _, some _, _ => left.emitted
    | some _, none, some _ =>
      left.emitted ++ .unary .push (.register .accumulator) :: right.emitted
    | some operator, none, none =>
      left.emitted ++ .unary .push (.register .accumulator) ::
        (right.emitted ++ .unary .pop (.register .scratch) :: operator.code)
  | _ => []

-- The first fault of the body of a function, which must be a return.
def bodyFault? : Node → Option GenerateError
  | ret value _ => value.fault?
  | other => some (.unhandledStatement other)

def bodyEmitted : Node → List Instruction
  | ret value _ =>
    match value.fault? with
    | none => value.emitted ++ [.nullary .ret]
    | some _ => value.emitted
  | _ => []

-- All constants are short enough to be written.
def HasWritableConstants : Node → Prop
  | constant value _ => Numeral.isWritable value
  | unary _ operand _ => operand.HasWritableConstants
  | group inner _ => inner.HasWritableConstants
  | binary _ left _ right _ => left.HasWritableConstants ∧ right.HasWritableConstants
  | ret value _ => value.HasWritableConstants
  | function _ body _ => body.HasWritableConstants
  | program main _ => main.HasWritableConstants
  | bare _ => True

theorem fault?_unary {op : String} {operator : UnaryOperator}
    (h : UnaryOperator.ofSymbol? op = some operator) (operand : Node) (place : Position) :
    (unary op operand place).fault? = operand.fault? := by
  simp only [fault?, parts, List.findSome?_cons, rootFault?, h]

theorem fault?_unary_of_none {op : String} (h : UnaryOperator.ofSymbol? op = none)
    (operand : Node) (place : Position) :
    (unary op operand place).fault? =
      some (.unsupportedOperator op (unary op operand place)) := by
  simp only [fault?, parts, List.findSome?_cons, rootFault?, h]

theorem fault?_binary {tier : Tier} {op : String} {operator : BinaryOperator}
    (h : tier.ofSymbol? op = some operator) (left right : Node) (place : Position) :
    (binary tier left op right place).fault? = left.fault?.or right.fault? := by
  simp only [fault?, parts, List.findSome?_cons, rootFault?, h, List.findSome?_append]

theorem fault?_binary_of_none {tier : Tier} {op : String} (h : tier.ofSymbol? op = none)
    (left right : Node) (place : Position) :
    (binary tier left op right place).fault? =
      some (.unsupportedOperator op (binary tier left op right place)) := by
  simp only [fault?, parts, List.findSome?_cons, rootFault?, h]

theorem fault?_eq_none_iff (node : Node) :
    node.fault? = none ↔ ∀ part ∈ node.parts, part.rootFault? = none :=
  List.findSome?_eq_none_iff

-- The expressions without a fault are the supported ones.
theorem supported_iff (node : Node) : node.Supported ↔ node.fault? = none := by
  constructor
  · intro h
    induction h with
    | constant value place => rfl
    | group place _ ih => exact ih
    | unary operator place _ ih =>
      rw [fault?_unary (UnaryOperator.ofSymbol?_symbol operator), ih]
    | binary place hop _ _ ihleft ihright =>
      rw [fault?_binary (Tier.ofSymbol?_symbol hop), ihleft, ihright]
      rfl
  · intro h
    induction node with
    | constant value place => exact .constant value place
    | group inner place ih => exact .group place (ih h)
    | unary op operand place ih =>
      cases hop : UnaryOperator.ofSymbol? op with
      | none =>
        rw [fault?_unary_of_none hop] at h
        cases h
      | some operator =>
        rw [fault?_unary hop] at h
        rw [UnaryOperator.symbol_of_ofSymbol? hop]
        exact .unary operator place (ih h)
    | binary tier left op right place ihleft ihright =>
      cases hop : tier.ofSymbol? op with
      | none =>
        rw [fault?_binary_of_none hop] at h
        cases h
      | some operator =>
        rw [fault?_binary hop, Option.or_eq_none_iff] at h
        obtain ⟨hmem, rfl⟩ := Tier.of_ofSymbol? hop
        exact .binary place hmem (ihleft h.1) (ihright h.2)
    | bare place => cases h
    | ret value place => cases h
    | function name body place => cases h
    | program main place => cases h

-- Nothing is held back of an expression without a fault.
theorem emitted_of_supported {node : Node} (h : node.Supported) : node.emitted = node.code := by
  induction h with
  | constant value place => rfl
  | group place _ ih => exact ih
  | unary operator place hoperand ih =>
    rw [code_unary, ← ih, emitted, UnaryOperator.ofSymbol?_symbol, (supported_iff _).mp hoperand]
  | binary place hop hleft hright ihleft ihright =>
    rw [code_binary hop, ← ihleft, ← ihright, emitted, Tier.ofSymbol?_symbol hop,
      (supported_iff _).mp hleft, (supported_iff _).mp hright]
    simp

end Node

theorem UnaryOperator.isEncodable_code (operator : UnaryOperator) :
    ∀ instruction ∈ operator.code, instruction.IsEncodable := by
  have hzero : Numeral.isWritable 0 := Numeral.isWritable_of_word (by decide)
  cases operator <;>
    simp [code, Instruction.IsEncodable, Instruction.IsWritable, Operand.IsWritable, hzero]

theorem BinaryOperator.isEncodable_code (operator : BinaryOperator) :
    ∀ instruction ∈ operator.code, instruction.IsEncodable := by
  cases operator <;>
    simp [code, Instruction.IsEncodable, Instruction.IsWritable, Operand.IsWritable]

theorem Node.HasWritableConstants.isEncodable_emitted {node : Node}
    (h : node.HasWritableConstants) :
    ∀ instruction ∈ node.emitted, instruction.IsEncodable := by
  induction node with
  | constant value place =>
    intro instruction hmem
    rw [List.mem_singleton.mp hmem]
    exact ⟨h, trivial⟩
  | group inner place ih => exact ih h
  | unary op operand place ih =>
    have hoperand := ih h
    unfold emitted
    split
    · exact List.forall_mem_nil _
    · exact hoperand
    · exact List.forall_mem_append.mpr ⟨hoperand, UnaryOperator.isEncodable_code _⟩
  | binary tier left op right place ihleft ihright =>
    have hleft := ihleft h.1
    have hright := ihright h.2
    unfold emitted
    split
    · exact List.forall_mem_nil _
    · exact hleft
    · exact List.forall_mem_append.mpr ⟨hleft, List.forall_mem_cons.mpr ⟨trivial, hright⟩⟩
    · refine List.forall_mem_append.mpr ⟨hleft, List.forall_mem_cons.mpr ⟨trivial, ?_⟩⟩
      exact List.forall_mem_append.mpr
        ⟨hright, List.forall_mem_cons.mpr ⟨trivial, BinaryOperator.isEncodable_code _⟩⟩
  | _ => exact List.forall_mem_nil _

theorem Node.HasWritableConstants.isWritable_bodyEmitted {body : Node}
    (h : body.HasWritableConstants) :
    ∀ instruction ∈ body.bodyEmitted, instruction.IsWritable := by
  cases body with
  | ret value place =>
    have hconstants : value.HasWritableConstants := h
    have hvalue : ∀ instruction ∈ value.emitted, instruction.IsWritable := fun instruction hmem =>
      (hconstants.isEncodable_emitted instruction hmem).isWritable
    simp only [bodyEmitted]
    cases value.fault? with
    | none =>
      have hret : Instruction.IsWritable (.nullary .ret) := trivial
      exact List.forall_mem_append.mpr ⟨hvalue, List.forall_mem_singleton.mpr hret⟩
    | some fault => exact hvalue
  | _ => exact List.forall_mem_nil _

namespace Generator

-- Ends in a fault, if there is one.
def settle : Option GenerateError → Generator Unit
  | none => pure ()
  | some fault => throw fault

-- Recursion on the tree emits the code up to the first fault, and then ends in it.
theorem plain_eq (node : Node) :
    plain node = (do emitAll node.emitted; settle node.fault?) := by
  induction node with
  | constant value place =>
    rw [plain, Node.emitted, emitAll_singleton]
    exact bind_pure_unit.symm
  | group inner place ih => exact ih
  | unary op operand place ih =>
    cases hop : UnaryOperator.ofSymbol? op with
    | none =>
      rw [Node.fault?_unary_of_none hop, Node.emitted, hop, plain, hop]
      rfl
    | some operator =>
      rw [Node.fault?_unary hop, Node.emitted, hop, plain, hop]
      simp only [ih]
      cases operand.fault? with
      | none => simp only [settle, emitAll_append, bind_assoc, bind_pure_unit]
      | some fault => simp only [settle, bind_assoc, throw_bind]
  | binary tier left op right place ihleft ihright =>
    cases hop : tier.ofSymbol? op with
    | none =>
      rw [Node.fault?_binary_of_none hop, Node.emitted, hop, plain, hop]
      rfl
    | some operator =>
      rw [Node.fault?_binary hop, Node.emitted, hop, plain, hop]
      simp only [ihleft, ihright]
      cases left.fault? with
      | some fault => simp only [settle, bind_assoc, throw_bind, Option.some_or]
      | none =>
        cases right.fault? with
        | some fault =>
          simp only [settle, emitAll_append, emitAll_cons, bind_assoc, pure_bind, throw_bind,
            Option.none_or]
        | none =>
          simp only [settle, emitAll_append, emitAll_cons, bind_assoc, bind_pure_unit,
            Option.none_or]
  | bare place => rfl
  | ret value place => rfl
  | function name body place => rfl
  | program main place => rfl

def plainStatement : Node → Generator Unit
  | .ret value _ => do
    plain value
    emit (.nullary .ret)
  | other => throw (.unhandledStatement other)

-- Generation of a program of one function by recursion on the tree alone.
def plainFunction (name : Option String) (body : Node) : Generator Unit := do
  modify fun emission =>
    { emission with log := emission.log.note fun _ => "codegen: function " ++ name.getD "None" }
  emitAll (functionHead name)
  plainStatement body

-- What a generator makes of no code: the code in the order of its emission, and the log.
def outcome (generator : Generator Unit) (log : Log) :
    Except GenerateError (List Instruction) × Log :=
  let (result, emission) := generator.run.run ⟨[], log⟩
  (result.map fun _ => emission.code.reverse, emission.log)

theorem statement_eq_plain (body : Node) : statement body = plainStatement body := by
  cases body with
  | ret value place => simp only [statement, expression_eq_plain, plainStatement]
  | _ => rfl

theorem program_eq_plain (name : Option String) (body : Node) (mainPlace place : Position) :
    program (.program (.function name body mainPlace) place) = plainFunction name body := by
  simp only [program, function, statement_eq_plain, plainFunction, functionHead, emitAll_cons,
    emitAll_nil, bind_assoc, pure_bind]

theorem plainStatement_eq (body : Node) :
    plainStatement body = (do emitAll body.bodyEmitted; settle body.bodyFault?) := by
  cases body with
  | ret value place =>
    simp only [plainStatement, plain_eq, Node.bodyEmitted, Node.bodyFault?]
    cases value.fault? with
    | none => simp only [settle, emitAll_append, emitAll_singleton, bind_assoc, bind_pure_unit]
    | some fault => simp only [settle, bind_assoc, throw_bind]
  | _ => rfl

end Generator

-- The code of a program of one function, or its first fault.
def functionResult (name : Option String) (body : Node) :
    Except GenerateError (List Instruction) :=
  match body.bodyFault? with
  | none => .ok (functionHead name ++ body.bodyEmitted)
  | some fault => .error fault

namespace Generator

theorem outcome_of_run_emitAll {name : Option String} {body : Node} {log last : Log}
    (h : (emitAll (functionHead name ++ body.bodyEmitted)).run.run
      ⟨[], log.note fun _ => "codegen: function " ++ name.getD "None"⟩ =
        (.ok (), ⟨(functionHead name ++ body.bodyEmitted).reverse, last⟩)) :
    (plainFunction name body).outcome log = (functionResult name body, last) := by
  have hrun : (plainFunction name body).run.run ⟨[], log⟩ =
      (settle body.bodyFault?).run.run
        ⟨(functionHead name ++ body.bodyEmitted).reverse, last⟩ := by
    have hplain : plainFunction name body = (do
        modify fun emission => { emission with
          log := emission.log.note fun _ => "codegen: function " ++ name.getD "None" }
        emitAll (functionHead name ++ body.bodyEmitted)
        settle body.bodyFault?) := by
      simp only [plainFunction, plainStatement_eq, emitAll_append, bind_assoc]
    rw [hplain]
    exact run_bind_ok h
  simp only [outcome, hrun, functionResult]
  cases body.bodyFault? with
  | none =>
    exact congrArg
      (fun code => ((.ok code : Except GenerateError (List Instruction)), last))
      (List.reverse_reverse (functionHead name ++ body.bodyEmitted))
  | some fault => rfl

theorem outcome_silent (name : Option String) (body : Node) :
    (plainFunction name body).outcome .silent = (functionResult name body, .silent) := by
  apply outcome_of_run_emitAll
  have hrun := run_emitAll_silent (functionHead name ++ body.bodyEmitted) []
  rwa [List.append_nil] at hrun

-- The line that reports the generation of a function.
def generatedLine (name : Option String) : String := "codegen: function " ++ name.getD "None"

theorem exists_texts (name : Option String) {body : Node} (h : body.HasWritableConstants) :
    ∃ texts, (functionHead name ++ body.bodyEmitted).mapM Instruction.shown = .ok texts := by
  have hhead : ∀ instruction ∈ functionHead name, instruction.IsWritable := by
    simp [functionHead, Instruction.IsWritable]
  exact Instruction.exists_mapM_shown (List.forall_mem_append.mpr ⟨hhead, h.isWritable_bodyEmitted⟩)

-- Instructions that can be shown are reported in their order, up to the fault.
theorem outcome_after {name : Option String} {body : Node} {texts : List String}
    (h : (functionHead name ++ body.bodyEmitted).mapM Instruction.shown = .ok texts) (log : Log) :
    (plainFunction name body).outcome log =
      (functionResult name body, log.after (generatedLine name :: texts.map emittedLine)) := by
  apply outcome_of_run_emitAll
  rw [Log.note_eq_after]
  have hrun := run_emitAll h [] (log.after [generatedLine name])
  rwa [List.append_nil, Log.after_after] at hrun

theorem outcome_recording (name : Option String) {body : Node}
    (h : body.HasWritableConstants) (lines : List String) :
    ∃ texts, (functionHead name ++ body.bodyEmitted).mapM Instruction.shown = .ok texts ∧
      (plainFunction name body).outcome (.recording lines) =
        (functionResult name body, .recording ((texts.map fun text => "emit: " ++ text).reverse ++
          ("codegen: function " ++ name.getD "None") :: lines)) := by
  obtain ⟨texts, htexts⟩ := exists_texts name h
  refine ⟨texts, htexts, ?_⟩
  rw [outcome_after htexts, Log.after, List.reverse_cons, List.append_assoc]
  rfl

end Generator

theorem functionResult_eq_ok_iff (name : Option String) (body : Node) (code : List Instruction) :
    functionResult name body = .ok code ↔
      ∃ value place, body = .ret value place ∧ (∀ part ∈ value.parts, part.rootFault? = none) ∧
        code = functionCode name value := by
  constructor
  · intro h
    cases body with
    | ret value place =>
      simp only [functionResult, Node.bodyFault?, Node.bodyEmitted] at h
      cases hfault : value.fault? with
      | none =>
        have hsupported := (Node.supported_iff value).mpr hfault
        simp only [hfault, Node.emitted_of_supported hsupported] at h
        cases h
        refine ⟨value, place, rfl, (Node.fault?_eq_none_iff value).mp hfault, ?_⟩
        rw [functionCode, List.append_assoc]
      | some fault =>
        simp only [hfault] at h
        cases h
    | _ => cases h
  · rintro ⟨value, place, rfl, hparts, rfl⟩
    have hfault := (Node.fault?_eq_none_iff value).mpr hparts
    have hemitted := Node.emitted_of_supported ((Node.supported_iff value).mpr hfault)
    simp only [functionResult, Node.bodyFault?, Node.bodyEmitted, hfault, hemitted, functionCode,
      List.append_assoc]

theorem generate_eq_outcome (name : Option String) (body : Node) (mainPlace place : Position)
    (log : Log) :
    generate (.program (.function name body mainPlace) place) log =
      (Generator.plainFunction name body).outcome log := by
  rw [← Generator.program_eq_plain name body mainPlace place]
  rfl

-- Numbers that can be written let a trace show the whole code of a program, in its order.
theorem Node.Returns.exists_texts {program value : Node} {name : Option String}
    (h : program.Returns name value) (hwritable : value.HasWritableConstants) :
    ∃ texts, (functionCode name value).mapM Instruction.shown = .ok texts ∧
      ∀ log, generate program log = (.ok (functionCode name value),
        log.after (Generator.generatedLine name :: texts.map emittedLine)) := by
  obtain ⟨⟨bodyPlace, mainPlace, place, rfl⟩, hsupported⟩ := h
  have hfault : value.fault? = none := (Node.supported_iff value).mp hsupported
  have hcode : functionHead name ++ (Node.ret value bodyPlace).bodyEmitted =
      functionCode name value := by
    simp only [Node.bodyEmitted, hfault, Node.emitted_of_supported hsupported, functionCode,
      List.append_assoc]
  have hresult : functionResult name (.ret value bodyPlace) = .ok (functionCode name value) := by
    simp only [functionResult, Node.bodyFault?, hfault, hcode]
  have hbody : (Node.ret value bodyPlace).HasWritableConstants := hwritable
  obtain ⟨texts, htexts⟩ := Generator.exists_texts name hbody
  refine ⟨texts, hcode ▸ htexts, fun log => ?_⟩
  rw [generate_eq_outcome, Generator.outcome_after htexts, hresult]

-- Generation without a list of waiting operators gives the same code or the same fault, and the
-- same log, for any body and any log. A program without a fault has the code of its body; else
-- generation ends in the first fault, with the instructions before it reported in their order.
-- So it succeeds just if the body returns an expression of which no node has a fault.
theorem generation_agrees_with_plain_recursion (name : Option String) (body : Node)
    (mainPlace place : Position) :
    (∀ log, generate (.program (.function name body mainPlace) place) log =
      (Generator.plainFunction name body).outcome log) ∧
    generate (.program (.function name body mainPlace) place) .silent =
      (functionResult name body, .silent) ∧
    (body.HasWritableConstants → ∀ lines, ∃ texts,
      (functionHead name ++ body.bodyEmitted).mapM Instruction.shown = .ok texts ∧
        generate (.program (.function name body mainPlace) place) (.recording lines) =
          (functionResult name body,
            .recording ((texts.map fun text => "emit: " ++ text).reverse ++
              ("codegen: function " ++ name.getD "None") :: lines))) ∧
    (∀ code, (generate (.program (.function name body mainPlace) place) .silent).1 = .ok code ↔
      ∃ value bodyPlace, body = .ret value bodyPlace ∧
        (∀ part ∈ value.parts, part.rootFault? = none) ∧ code = functionCode name value) := by
  have hsilent : generate (.program (.function name body mainPlace) place) .silent =
      (functionResult name body, .silent) := by
    rw [generate_eq_outcome, Generator.outcome_silent]
  refine ⟨generate_eq_outcome name body mainPlace place, hsilent, ?_, ?_⟩
  · intro hwritable lines
    rw [generate_eq_outcome]
    exact Generator.outcome_recording name hwritable lines
  · rw [hsilent]
    exact functionResult_eq_ok_iff name body

-- The expression `-1 + 2 % x`, whose remainder is no operator and whose last operand is no
-- expression.
def remainderOfNothing : Node :=
  .binary .additive (.unary "-" (.constant 1 .start) .start) "+"
    (.binary .multiplicative (.constant 2 .start) "%" (.bare .start) .start) .start

theorem generation_agrees_with_plain_recursion_remainder :
    (Node.ret remainderOfNothing .start).HasWritableConstants ∧ ∃ texts,
      (functionHead (some "f") ++
        [Instruction.binary .mov (.immediate 1) (.register .accumulator),
         .unary .neg (.register .accumulator),
         .unary .push (.register .accumulator)]).mapM Instruction.shown = .ok texts ∧
      generate (.program (.function (some "f") (.ret remainderOfNothing .start) .start) .start)
          (.recording []) =
        (.error (.unsupportedOperator "%"
            (.binary .multiplicative (.constant 2 .start) "%" (.bare .start) .start)),
          .recording ((texts.map fun text => "emit: " ++ text).reverse ++
            ["codegen: function f"])) := by
  have hwritable : (Node.ret remainderOfNothing .start).HasWritableConstants :=
    ⟨Numeral.isWritable_of_word (by decide), Numeral.isWritable_of_word (by decide), trivial⟩
  exact ⟨hwritable, (generation_agrees_with_plain_recursion (some "f")
    (.ret remainderOfNothing .start) .start .start).2.2.1 hwritable []⟩

end TinyC
