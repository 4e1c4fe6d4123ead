import TinyC.Proofs.Code.Plain
import TinyC.Proofs.Tree.Exact

namespace TinyC

namespace Word

theorem signFill_append_toInt (word : Word) : (word.signFill ++ word).toInt = word.toInt := by
  have hword := BitVec.toInt_eq_msb_cond word
  rw [BitVec.toInt_append, hword]
  cases hmsb : word.msb with
  | false => simp [signFill, hmsb]
  | true =>
    simp [signFill, hmsb]
    omega

theorem setLowByte_zero (bit : Bool) : setLowByte 0 bit = if bit then 1 else 0 := by
  cases bit <;> decide

end Word

-- The quotient of two words fits unless it is that of the least word by minus one.
theorem quotient?_toInt (left right : Word) :
    quotient? left.toInt right.toInt =
      if right = 0 then none
      else if left = BitVec.intMin 32 ∧ right = -1 then none
      else some (left.toInt.tdiv right.toInt) := by
  by_cases hzero : right = 0
  · subst hzero
    simp [quotient?]
  have hright : right.toInt ≠ 0 := by
    intro h
    exact hzero (BitVec.toInt_inj.mp (by simpa using h))
  rw [if_neg hzero, quotient?, if_neg hright]
  by_cases hover : left = BitVec.intMin 32 ∧ right = -1
  · obtain ⟨rfl, rfl⟩ := hover
    decide
  · have hne : left ≠ BitVec.intMin 32 ∨ right ≠ -1#32 := by
      by_cases hleft : left = BitVec.intMin 32
      · exact .inr fun hr => hover ⟨hleft, hr⟩
      · exact .inl hleft
    have hquotient := BitVec.toInt_sdiv_of_ne_or_ne left right hne
    have hlow := BitVec.le_toInt (left.sdiv right)
    have hhigh := BitVec.toInt_lt (x := left.sdiv right)
    rw [hquotient] at hlow hhigh
    rw [if_neg hover]
    exact if_pos ⟨hlow, hhigh⟩

theorem divide_combine? (left right : Word) :
    BinaryOperator.divide.combine? left right =
      (quotient? left.toInt right.toInt).map Word.ofInt := by
  rw [quotient?_toInt]
  simp only [BinaryOperator.combine?]
  split
  · rfl
  · split <;> rfl

namespace Machine

variable (effect : FlagEffect)

-- A run leaves the word in the accumulator and the stack as given, or it faults for want of
-- a word.
def Leaves (stack : List Word) (word? : Option Word) (outcome : Except Halt Machine) : Prop :=
  match word? with
  | none => outcome = .error .faulted
  | some word => ∃ final, outcome = .ok final ∧ final.registers .accumulator = word ∧
      final.stack = stack

-- What runs after code that computes a word goes on from that word.
theorem Leaves.append {first second : List Instruction} {machine : Machine}
    {middle stack : List Word} {word? : Option Word} {value? : Word → Option Word}
    (hfirst : Leaves middle word? (execute effect first machine))
    (hsecond : ∀ next, next.stack = middle →
      Leaves stack (value? (next.registers .accumulator)) (execute effect second next)) :
    Leaves stack (word?.bind value?) (execute effect (first ++ second) machine) := by
  cases word? with
  | none => exact execute_append_error effect hfirst second
  | some word =>
    obtain ⟨next, hnext, rfl, hstack⟩ := hfirst
    rw [execute_append_ok effect hnext]
    exact hsecond next hstack

theorem leaves_unary (operator : UnaryOperator) (machine : Machine) :
    Leaves machine.stack (some (operator.apply (machine.registers .accumulator)))
      (execute effect operator.code machine) := by
  cases operator with
  | negate => exact ⟨_, rfl, by simp [UnaryOperator.apply], rfl⟩
  | complement => exact ⟨_, rfl, by simp [UnaryOperator.apply], rfl⟩
  | isZero =>
    refine ⟨_, rfl, ?_, rfl⟩
    have hflag : (Word.ofInt 0).setLowByte (machine.registers .accumulator == Word.ofInt 0) =
        if machine.registers .accumulator = 0 then 1 else 0 := by
      simpa [Word.ofInt] using Word.setLowByte_zero (machine.registers .accumulator == 0)
    simpa [UnaryOperator.apply, withFlag] using hflag

theorem leaves_idiv (machine : Machine) (left : Word) (h : machine.dividend = left.toInt) :
    Leaves machine.stack (BinaryOperator.divide.combine? left (machine.registers .divisor))
      (execute effect [.unary .idiv (.register .divisor)] machine) := by
  rw [divide_combine?]
  cases hquotient : quotient? left.toInt (machine.registers .divisor).toInt with
  | none => simp [Leaves, execute, step, stepUnary, value?, divide, h, hquotient, Except.map]
  | some quotient =>
    simp [Leaves, execute, step, stepUnary, value?, divide, h, hquotient, Except.map,
      set_registers_of_ne]

-- The divisor is moved out of the way of the dividend, and the sign of the dividend fills
-- its upper half.
theorem leaves_divide (machine : Machine) :
    Leaves machine.stack
      (BinaryOperator.divide.combine? (machine.registers .scratch) (machine.registers .accumulator))
      (execute effect BinaryOperator.divide.code machine) := by
  let staged := (machine.set .divisor (machine.registers .accumulator)).set .accumulator
    (machine.registers .scratch)
  let ready := (staged.set .dividendHigh (machine.registers .scratch).signFill).withFlag
    (effect (.nullary .signExtend) staged)
  have hready : execute effect BinaryOperator.divide.code machine =
      execute effect [.unary .idiv (.register .divisor)] ready := rfl
  have hdividend : ready.dividend = (machine.registers .scratch).toInt :=
    Word.signFill_append_toInt (machine.registers .scratch)
  have hdivisor : ready.registers .divisor = machine.registers .accumulator := rfl
  rw [hready, ← hdivisor]
  exact leaves_idiv effect ready _ hdividend

theorem leaves_binary (operator : BinaryOperator) (machine : Machine) :
    Leaves machine.stack
      (operator.combine? (machine.registers .scratch) (machine.registers .accumulator))
      (execute effect operator.code machine) := by
  cases operator with
  | add =>
    refine ⟨_, rfl, ?_, rfl⟩
    simp [BitVec.add_comm]
  | subtract =>
    refine ⟨_, rfl, ?_, rfl⟩
    simp
  | multiply =>
    refine ⟨_, rfl, ?_, rfl⟩
    simp [BitVec.mul_comm]
  | divide => exact leaves_divide effect machine

theorem execute_push (machine : Machine) (rest : List Instruction) :
    execute effect (.unary .push (.register .accumulator) :: rest) machine =
      execute effect rest
        { machine with stack := machine.registers .accumulator :: machine.stack } := rfl

theorem execute_pop {machine : Machine} {word : Word} {stack : List Word}
    (h : machine.stack = word :: stack) (rest : List Instruction) :
    execute effect (.unary .pop (.register .scratch) :: rest) machine =
      execute effect rest { machine.set .scratch word with stack := stack } := by
  apply execute_cons_ok
  simp only [step, stepUnary, h]

-- Expressions nest in the machine's stack, so the invariant is about code that starts with any
-- stack and any registers, and gives the stack back as it was.
theorem leaves_code {node : Node} (h : node.Supported) (machine : Machine) :
    Leaves machine.stack node.value? (execute effect node.code machine) := by
  induction h generalizing machine with
  | constant value place =>
    exact ⟨machine.set .accumulator (Word.ofInt value), rfl, set_registers_self _ _ _, rfl⟩
  | group place _ ih => exact ih machine
  | unary operator place _ ih =>
    rw [Node.code_unary, Node.value?_unary, Option.map_eq_bind]
    apply Leaves.append effect (ih machine)
    intro next hstack
    rw [← hstack]
    exact leaves_unary effect operator next
  | @binary tier operator left right place hop _ _ ihleft ihright =>
    rw [Node.code_binary hop, Node.value?_binary hop]
    simp only [List.append_assoc, List.cons_append, List.nil_append]
    apply Leaves.append effect (ihleft machine)
    intro next hstack
    rw [execute_push]
    apply Leaves.append effect (ihright _)
    intro last hlast
    rw [execute_pop effect hlast, ← hstack]
    exact leaves_binary effect operator
      { last.set .scratch (next.registers .accumulator) with stack := next.stack }

theorem leaves_functionCode {value : Node} (h : value.Supported) (name : Option String)
    (machine : Machine) :
    Leaves machine.stack value.value?
      (execute effect (functionHead name ++ value.code) machine) :=
  leaves_code effect h machine

end Machine

namespace Parser

theorem Derives.supported {denotes : Token → Int → Prop} {level : Level} {tokens : List Token}
    {node : Node} (h : Derives denotes level tokens node) : node.Supported := by
  induction h with
  | literal _ => exact .constant _ _
  | unary _ _ ih => exact .unary _ _ ih
  | group _ _ _ ih => exact .group _ ih
  | operand _ ih => exact ih
  | binary _ hop _ ihleft ihright =>
    exact .binary _ (Tier.mem_operators_of_ofTerminal? hop) ihleft ihright

-- Programs that are read have code.
theorem returns_of_parse {tokens : List Token} {limit : Int} {log : Log} {tree : Node}
    (h : (parse tokens limit log).1 = .ok tree) : ∃ name value, tree.Returns name value := by
  cases (derives_of_parse h).1 with
  | function _ _ _ _ _ _ hvalue _ _ =>
    exact ⟨_, _, ⟨⟨_, _, _, rfl⟩, hvalue.supported⟩⟩

end Parser

open Machine

-- Generation succeeds for all programs that return a supported expression, whatever its
-- nesting, as every program that is read does, and a trace does not change the code. From any
-- machine the code comes to its last instruction, the return, with the value of the expression
-- in the accumulator and the stack as it was, or it faults in a division if the expression has
-- no value.
theorem generated_code_computes_value :
    (∀ {program value : Node} {name : Option String}, program.Returns name value →
      ∃ code, generate program .silent = (.ok (code ++ [.nullary .ret]), .silent) ∧
        (∀ log traced, (generate program log).1 = .ok traced → traced = code ++ [.nullary .ret]) ∧
        ∀ (effect : FlagEffect) (machine : Machine),
          match value.value? with
          | some word => ∃ final, execute effect code machine = .ok final ∧
              execute effect (code ++ [.nullary .ret]) machine = .error (.returned final) ∧
              final.registers .accumulator = word ∧ final.stack = machine.stack
          | none => execute effect (code ++ [.nullary .ret]) machine = .error .faulted) ∧
    ∀ {tokens : List Token} {limit : Int} {log : Log} {tree : Node},
      (parse tokens limit log).1 = .ok tree → ∃ name value, tree.Returns name value := by
  refine ⟨?_, Parser.returns_of_parse⟩
  intro program value name h
  refine ⟨functionHead name ++ value.code, generate_of_returns h, fun _ _ => h.code_eq, ?_⟩
  intro effect machine
  have hleaves := leaves_functionCode effect h.supported name machine
  cases hvalue : value.value? with
  | none =>
    rw [hvalue] at hleaves
    exact execute_append_error effect hleaves _
  | some word =>
    rw [hvalue] at hleaves
    obtain ⟨final, hfinal, hword, hstack⟩ := hleaves
    exact ⟨final, hfinal, execute_append_ok effect hfinal _, hword, hstack⟩

-- The expression `7 / (-2)`, whose quotient is cut towards zero.
def sevenByMinusTwo : Node :=
  .binary .multiplicative (.constant 7 .start) "/"
    (.group (.unary "-" (.constant 2 .start) .start) .start) .start

theorem sevenByMinusTwo_supported : sevenByMinusTwo.Supported := by
  have hdivide : BinaryOperator.divide ∈ Tier.multiplicative.operators := by decide
  exact .binary .start hdivide (.constant 7 .start)
    (.group .start (.unary .negate .start (.constant 2 .start)))

theorem generated_code_computes_value_sevenByMinusTwo :
    sevenByMinusTwo.Supported ∧ sevenByMinusTwo.value? = some (-3) ∧
      ∃ code, generate (.program (.function (some "f") (.ret sevenByMinusTwo .start) .start) .start)
          .silent = (.ok (code ++ [.nullary .ret]), .silent) ∧
        ∀ (effect : FlagEffect) (machine : Machine), ∃ final,
          execute effect code machine = .ok final ∧
            execute effect (code ++ [.nullary .ret]) machine = .error (.returned final) ∧
            final.registers .accumulator = -3 ∧ final.stack = machine.stack := by
  have hvalue : sevenByMinusTwo.value? = some (-3) := by decide
  have hreturns : Node.Returns
      (.program (.function (some "f") (.ret sevenByMinusTwo .start) .start) .start) (some "f")
      sevenByMinusTwo := ⟨⟨_, _, _, rfl⟩, sevenByMinusTwo_supported⟩
  obtain ⟨code, hcode, _, hruns⟩ := generated_code_computes_value.1 hreturns
  simp only [hvalue] at hruns
  exact ⟨sevenByMinusTwo_supported, hvalue, code, hcode, hruns⟩

end TinyC
