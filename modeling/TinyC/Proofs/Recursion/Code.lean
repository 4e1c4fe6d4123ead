import TinyC.Proofs.Code.Fault
import TinyC.Proofs.Recursion.Calls

namespace TinyC

namespace Generator

-- Generates a chain as one call does, given the generation of its operands.
def walk (call : Node → Generator Unit) : Node → Pending → Generator Unit
  | .binary tier left op right place, pending =>
    match tier.ofSymbol? op with
    | none => throw (.unsupportedOperator op (.binary tier left op right place))
    | some operator => walk call left ((operator, call right) :: pending)
  | first, pending => do
    call first
    finish pending

-- What one call does to generate an expression, given the generation that it calls for.
def expressionStep (call : Node → Generator Unit) : Node → Generator Unit
  | .constant value _ => emit (.binary .mov (.immediate value) (.register .accumulator))
  | .group inner _ => call inner
  | .unary op operand place =>
    match UnaryOperator.ofSymbol? op with
    | none => throw (.unsupportedOperator op (.unary op operand place))
    | some operator => do
      call operand
      emitAll operator.code
  | .binary tier left op right place => walk call (.binary tier left op right place) []
  | other => throw (.unhandledExpression other)

-- Generates an expression with a budget of calls that may be active at once.
def expressionWithin (exhausted : GenerateError) : Nat → Node → Generator Unit :=
  withBudget expressionStep fun _ => throw exhausted

section

variable {call : Node → Generator Unit} {node : Node}

theorem walk_eq (h : ∀ operand ∈ node.operands, call operand = expression operand)
    (pending : Pending) : walk call node pending = chain node pending := by
  induction node generalizing pending with
  | binary tier left op right place ihleft ihright =>
    obtain ⟨hleft, hright⟩ := List.forall_mem_append.mp h
    rw [walk, chain]
    cases tier.ofSymbol? op with
    | none => rfl
    | some operator =>
      dsimp only
      rw [ihleft hleft, hright right (List.mem_singleton_self _)]
      rfl
  | _ =>
    rw [walk, h _ (List.mem_singleton_self _), expression_eq_plain, chain_eq]
    exact fun _ _ _ _ _ heq => by cases heq

theorem expressionStep_eq (h : ∀ callee ∈ node.callees, call callee = expression callee) :
    expressionStep call node = expression node := by
  cases node with
  | constant value place => exact (expression_eq_plain (.constant value place)).symm
  | group inner place =>
    rw [expressionStep, h inner (List.mem_singleton_self _), expression_eq_plain]
    exact (expression_eq_plain (.group inner place)).symm
  | unary op operand place =>
    rw [expressionStep, h operand (List.mem_singleton_self _), expression_eq_plain]
    exact (expression_eq_plain (.unary op operand place)).symm
  | binary tier left op right place =>
    rw [Node.callees] at h
    exact walk_eq h []
  | _ => rfl

theorem expressionWithin_eq (exhausted : GenerateError) {budget : Nat} (h : node.calls ≤ budget) :
    expressionWithin exhausted budget node = expression node :=
  Node.nests_callees.withBudget_eq (fun _ _ => expressionStep_eq) h

end

-- The generation of a program, given that of expressions.

def statementBy (value : Node → Generator Unit) : Node → Generator Unit
  | .ret node _ => do
    value node
    emit (.nullary .ret)
  | other => throw (.unhandledStatement other)

def functionBy (value : Node → Generator Unit) : Node → Generator Unit
  | .function name body _ => do
    modify fun emission =>
      { emission with log := emission.log.note fun _ => "codegen: function " ++ name.getD "None" }
    emit (.directive .text (some ""))
    emit (.directive .globl name)
    emit (.label name)
    statementBy value body
  | other => throw (.noPart "name" other)

def programBy (value : Node → Generator Unit) : Node → Generator Unit
  | .program main _ => functionBy value main
  | other => throw (.noPart "function" other)

theorem programBy_expression (tree : Node) : programBy expression tree = program tree := by
  cases tree with
  | program main place =>
    cases main with
    | function name body mainPlace => cases body <;> rfl
    | _ => rfl
  | _ => rfl

-- Untraced, the generator ends well from wherever it starts.
def Succeeds (generator : Generator Unit) : Prop :=
  ∀ code, ∃ after, generator.run.run ⟨code, .silent⟩ = (.ok (), ⟨after, .silent⟩)

def Fails (error : GenerateError) (generator : Generator Unit) : Prop :=
  ∀ code, ∃ after, generator.run.run ⟨code, .silent⟩ = (.error error, ⟨after, .silent⟩)

theorem succeeds_emit (instruction : Instruction) : Succeeds (emit instruction) :=
  fun code => ⟨_, run_emit_silent instruction code⟩

theorem succeeds_emitAll (instructions : List Instruction) : Succeeds (emitAll instructions) :=
  fun code => ⟨_, run_emitAll_silent instructions code⟩

theorem succeeds_expression {node : Node} (h : node.Supported) : Succeeds (expression node) := by
  rw [expression_eq_plain, plain_eq_emitAll h]
  exact succeeds_emitAll node.code

section

variable {error : GenerateError} {first : Generator Unit} {rest : Unit → Generator Unit}

theorem Fails.bind (h : Fails error first) (rest : Unit → Generator Unit) :
    Fails error (first >>= rest) := by
  intro code
  obtain ⟨after, hfirst⟩ := h code
  exact ⟨after, run_bind_error hfirst⟩

theorem Succeeds.bind_fails (h : Succeeds first) (hrest : Fails error (rest ())) :
    Fails error (first >>= rest) := by
  intro code
  obtain ⟨middle, hfirst⟩ := h code
  rw [run_bind_ok hfirst]
  exact hrest middle

-- It is enough that one of two parts fails.
theorem fails_bind (hfirst : Succeeds first ∨ Fails error first)
    (h : Fails error first ∨ Fails error (rest ())) : Fails error (first >>= rest) := by
  rcases h with hfails | hrest
  · exact hfails.bind rest
  · rcases hfirst with hsucceeds | hfails
    · exact hsucceeds.bind_fails hrest
    · exact hfails.bind rest

end

section

variable {call : Node → Generator Unit} {node : Node} {error : GenerateError}

theorem walk_fails (hnode : node.Supported)
    (hoperands : ∀ operand ∈ node.operands, Succeeds (call operand) ∨ Fails error (call operand))
    {pending : Pending}
    (h : (∃ operand ∈ node.operands, Fails error (call operand)) ∨ Fails error (finish pending)) :
    Fails error (walk call node pending) := by
  induction hnode generalizing pending with
  | @binary tier operator left right place hop _ _ ihleft ihright =>
    obtain ⟨hleft, hright⟩ := List.forall_mem_append.mp hoperands
    simp only [walk, Tier.ofSymbol?_symbol hop]
    apply ihleft hleft
    rcases h with ⟨operand, hmem, hfails⟩ | hpending
    · rcases List.mem_append.mp hmem with hmem | hmem
      · exact .inl ⟨operand, hmem, hfails⟩
      · rw [List.mem_singleton.mp hmem] at hfails
        rw [finish_cons]
        exact .inr ((succeeds_emit _).bind_fails (hfails.bind _))
    · rw [finish_cons]
      refine .inr ((succeeds_emit _).bind_fails (fails_bind (hright right ?_) (.inr ?_)))
      · exact List.mem_singleton_self _
      · exact (succeeds_emit _).bind_fails ((succeeds_emitAll _).bind_fails hpending)
  | _ =>
    change Fails error (do call _; finish pending)
    apply fails_bind (hoperands _ (List.mem_singleton_self _))
    rcases h with ⟨operand, hmem, hfails⟩ | hpending
    · rw [List.mem_singleton.mp hmem] at hfails
      exact .inl hfails
    · exact .inr hpending

theorem expressionStep_fails (hnode : node.Supported)
    (hcallees : ∀ callee ∈ node.callees, Succeeds (call callee) ∨ Fails error (call callee))
    (h : ∃ callee ∈ node.callees, Fails error (call callee)) :
    Fails error (expressionStep call node) := by
  obtain ⟨callee, hmem, hfails⟩ := h
  cases hnode with
  | constant value place => cases hmem
  | group place hinner =>
    rw [List.mem_singleton.mp hmem] at hfails
    exact hfails
  | unary operator place hoperand =>
    rw [List.mem_singleton.mp hmem] at hfails
    simp only [expressionStep, UnaryOperator.ofSymbol?_symbol]
    exact hfails.bind _
  | binary place hop hleft hright =>
    rw [Node.callees] at hcallees hmem
    exact walk_fails (.binary place hop hleft hright) hcallees (.inl ⟨callee, hmem, hfails⟩)

end

end Generator

namespace Node

theorem Supported.of_mem_operands {node operand : Node} (h : node.Supported)
    (hmem : operand ∈ node.operands) : operand.Supported := by
  induction h with
  | binary place hop hleft hright ihleft ihright =>
    rcases List.mem_append.mp hmem with hmem | hmem
    · exact ihleft hmem
    · rw [List.mem_singleton.mp hmem]
      exact hright
  | constant value place =>
    rw [List.mem_singleton.mp hmem]
    exact .constant value place
  | group place hinner _ =>
    rw [List.mem_singleton.mp hmem]
    exact .group place hinner
  | unary operator place hoperand _ =>
    rw [List.mem_singleton.mp hmem]
    exact .unary operator place hoperand

theorem Supported.of_mem_callees {node callee : Node} (h : node.Supported)
    (hmem : callee ∈ node.callees) : callee.Supported := by
  cases h with
  | constant value place => cases hmem
  | group place hinner =>
    rw [List.mem_singleton.mp hmem]
    exact hinner
  | unary operator place hoperand =>
    rw [List.mem_singleton.mp hmem]
    exact hoperand
  | binary place hop hleft hright =>
    rw [callees] at hmem
    exact (Supported.binary place hop hleft hright).of_mem_operands hmem

end Node

-- A budget of fewer calls is not enough for the code of a supported expression.
theorem Generator.expressionWithin_fails (exhausted : GenerateError) {node : Node}
    (h : node.Supported) {budget : Nat} (hbudget : budget < node.calls) :
    Fails exhausted (expressionWithin exhausted budget node) := by
  refine Node.nests_callees.withBudget_refused Node.Supported (Fails exhausted)
    (fun _ _ => expressionStep_eq) (fun _ hnode _ => hnode.of_mem_callees) ?_ ?_ h hbudget
  · exact fun _ code => ⟨code, rfl⟩
  · intro next node hnode hcallees hfails
    apply expressionStep_fails hnode _ hfails
    intro callee hmem
    rcases hcallees callee hmem with heq | hcallee
    · rw [heq]
      exact .inl (succeeds_expression (hnode.of_mem_callees hmem))
    · exact .inr hcallee

-- The code of a program with a budget of calls that may be active at once for an expression.
def generateWithin (exhausted : GenerateError) (budget : Nat) (tree : Node) (log : Log) :
    Except GenerateError (List Instruction) × Log :=
  (Generator.programBy (Generator.expressionWithin exhausted budget) tree).outcome log

section

variable {tree value : Node} {name : Option String} {budget : Nat}

-- Of expressions, only the one that the program returns is generated.
theorem Generator.programBy_congr (htree : tree.Returns name value)
    {first second : Node → Generator Unit} (h : first value = second value) :
    programBy first tree = programBy second tree := by
  obtain ⟨⟨bodyPlace, mainPlace, place, rfl⟩, _⟩ := htree
  simp only [programBy, functionBy, statementBy, h]

theorem Generator.programBy_fails (htree : tree.Returns name value)
    {expression : Node → Generator Unit} {error : GenerateError}
    (h : Fails error (expression value)) : Fails error (programBy expression tree) := by
  obtain ⟨⟨bodyPlace, mainPlace, place, rfl⟩, _⟩ := htree
  have hnote : Succeeds (modify fun emission => { emission with
      log := emission.log.note fun _ => "codegen: function " ++ name.getD "None" }) :=
    fun code => ⟨code, rfl⟩
  apply hnote.bind_fails
  apply (succeeds_emit _).bind_fails
  apply (succeeds_emit _).bind_fails
  apply (succeeds_emit _).bind_fails
  exact h.bind _

theorem generateWithin_eq (htree : tree.Returns name value) (exhausted : GenerateError)
    (h : value.calls ≤ budget) (log : Log) :
    generateWithin exhausted budget tree log = generate tree log := by
  have hgenerate : generate tree log = (Generator.program tree).outcome log := rfl
  rw [hgenerate, generateWithin, ← Generator.programBy_expression,
    Generator.programBy_congr htree (Generator.expressionWithin_eq exhausted h)]

theorem generateWithin_exhausted (htree : tree.Returns name value) (exhausted : GenerateError)
    (h : budget < value.calls) :
    generateWithin exhausted budget tree .silent = (.error exhausted, .silent) := by
  have hvalue := Generator.expressionWithin_fails exhausted htree.supported h
  obtain ⟨after, hrun⟩ := Generator.programBy_fails htree hvalue []
  rw [generateWithin, Generator.outcome, hrun]
  rfl

end

end TinyC
