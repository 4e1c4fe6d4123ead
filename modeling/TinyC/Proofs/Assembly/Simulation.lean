import TinyC.Proofs.Assembly.Backing
import TinyC.Proofs.Code.Correctness

namespace TinyC

-- What is known of a run from the code alone: whether the zero flag is that of a comparison,
-- and how many slots the stack holds above the start.
structure Track where
  isCompared : Bool
  height : Nat

namespace Track

-- Where an instruction leads, if it keeps to registers, takes back only what was pushed, and
-- sets on a condition only after a comparison.
def next? (track : Track) : Instruction → Option Track
  | .directive _ _ => some track
  | .label _ => some track
  | .nullary .ret => some track
  | .nullary .signExtend => some { track with isCompared := false }
  | .unary .push (.register _) => some { track with height := track.height + 1 }
  | .unary .pop (.register _) =>
    match track.height with
    | 0 => none
    | height + 1 => some { track with height }
  | .unary .sete (.register _) => if track.isCompared then some track else none
  | .unary _ (.register _) => some { track with isCompared := false }
  | .binary .mov _ (.register _) => some track
  | .binary .cmp _ (.register _) => some { track with isCompared := true }
  | .binary _ _ (.register _) => some { track with isCompared := false }
  | _ => none

def after? : Track → List Instruction → Option Track
  | track, [] => some track
  | track, instruction :: rest => (track.next? instruction).bind fun next => next.after? rest

theorem after?_append (track : Track) (first second : List Instruction) :
    track.after? (first ++ second) =
      (track.after? first).bind fun middle => middle.after? second := by
  induction first generalizing track with
  | nil => rfl
  | cons instruction rest ih =>
    rw [List.cons_append, after?, after?, Option.bind_assoc]
    exact congrArg _ (funext ih)

-- Code that may be followed to its end may be followed to any place before.
theorem after?_take {track final : Track} {code : List Instruction}
    (h : track.after? code = some final) (n : Nat) :
    ∃ middle, track.after? (code.take n) = some middle ∧
      middle.after? (code.drop n) = some final := by
  rw [← List.take_append_drop n code, after?_append] at h
  exact Option.bind_eq_some_iff.mp h

end Track

theorem UnaryOperator.after?_code (operator : UnaryOperator) (track : Track) :
    ∃ isCompared, track.after? operator.code = some { track with isCompared } := by
  cases operator <;> exact ⟨_, rfl⟩

theorem BinaryOperator.after?_code (operator : BinaryOperator) (track : Track) :
    ∃ isCompared, track.after? operator.code = some { track with isCompared } := by
  cases operator <;> exact ⟨_, rfl⟩

-- The code of an expression takes back all that it pushes.
theorem Node.Supported.after?_code {node : Node} (h : node.Supported) (track : Track) :
    ∃ isCompared, track.after? node.code = some { track with isCompared } := by
  induction h generalizing track with
  | constant value place => exact ⟨track.isCompared, rfl⟩
  | group place _ ih => exact ih track
  | unary operator place _ ih =>
    obtain ⟨_, hoperand⟩ := ih track
    obtain ⟨isCompared, hoperator⟩ := operator.after?_code { track with isCompared := _ }
    refine ⟨isCompared, ?_⟩
    rw [code_unary, Track.after?_append, hoperand]
    exact hoperator
  | @binary tier operator left right place hop _ _ ihleft ihright =>
    obtain ⟨afterLeft, hleft⟩ := ihleft track
    obtain ⟨afterRight, hright⟩ := ihright ⟨afterLeft, track.height + 1⟩
    obtain ⟨isCompared, hoperator⟩ := operator.after?_code ⟨afterRight, track.height⟩
    refine ⟨isCompared, ?_⟩
    rw [code_binary hop]
    simp only [Track.after?_append, hleft, Option.bind_some]
    simp only [Track.after?, Track.next?, Option.bind_some, hright]
    exact hoperator

-- How far a machine and a processor agree that were started together: in the lower halves of
-- the registers and of the slots above the start, of which there are as many.
structure Mirrors (origin : Machine) (base : Processor) (height : Nat) (machine : Machine)
    (processor : Processor) : Prop where
  registers : ∀ slot : Register, processor.long slot.backing = machine.registers slot
  slots : ∃ above : List Quad, above.length = height ∧ processor.stack = above ++ base.stack ∧
    machine.stack = above.map Quad.low ++ origin.stack
  pointer : processor.stackPointer = base.stackPointer - BitVec.ofNat 64 (8 * height)

-- The flags agree as long as a comparison has set them.
structure Simulates (origin : Machine) (base : Processor) (track : Track) (machine : Machine)
    (processor : Processor) : Prop extends
    Mirrors origin base track.height machine processor where
  flag : track.isCompared = true → processor.zeroFlag = machine.zeroFlag

-- Two runs come to the same end, or are both still running.
def Agree (origin : Machine) (base : Processor) (running : Machine → Processor → Prop) :
    Except Machine.Halt Machine → Except Processor.Halt Processor → Prop
  | .ok machine, .ok processor => running machine processor
  | .error (.returned machine), .error (.returned processor) =>
    ∃ height, Mirrors origin base height machine processor
  | .error .faulted, .error .faulted => True
  | _, _ => False

theorem Agree.of_faulted {origin : Machine} {base : Processor}
    {running : Machine → Processor → Prop} {outcome : Except Processor.Halt Processor}
    (h : Agree origin base running (.error .faulted) outcome) : outcome = .error .faulted := by
  cases outcome with
  | ok processor => exact absurd h id
  | error halt =>
    cases halt with
    | faulted => rfl
    | _ => exact absurd h id

theorem Agree.of_ok {origin : Machine} {base : Processor} {running : Machine → Processor → Prop}
    {machine : Machine} {outcome : Except Processor.Halt Processor}
    (h : Agree origin base running (.ok machine) outcome) :
    ∃ processor, outcome = .ok processor ∧ running machine processor := by
  cases outcome with
  | ok processor => exact ⟨processor, rfl, h⟩
  | error halt => exact absurd h id

theorem Agree.mono {origin : Machine} {base : Processor} {first second : Machine → Processor → Prop}
    {outcome : Except Machine.Halt Machine} {other : Except Processor.Halt Processor}
    (h : Agree origin base first outcome other)
    (himp : ∀ machine processor, first machine processor → second machine processor) :
    Agree origin base second outcome other := by
  cases outcome with
  | ok machine =>
    obtain ⟨processor, rfl, hfirst⟩ := h.of_ok
    exact himp machine processor hfirst
  | error halt =>
    cases other with
    | ok processor => cases halt <;> exact absurd h id
    | error last => cases halt <;> cases last <;> exact h

section Steps

variable {origin : Machine} {base : Processor} {track : Track} {machine : Machine}
  {processor : Processor}

theorem Register.backing_inj {slot other : Register} :
    other.backing = slot.backing ↔ other = slot := by
  cases slot <;> cases other <;> decide

namespace Simulates

theorem set (h : Simulates origin base track machine processor) (slot : Register)
    {word : Word} (quad : Quad) (hlow : quad.low = word) :
    Simulates origin base track (machine.set slot word) (processor.set slot.backing quad) := by
  refine ⟨⟨?_, h.slots, h.pointer⟩, h.flag⟩
  intro other
  by_cases hother : other = slot
  · subst hother
    simpa [Processor.long] using hlow
  · have hbacking : other.backing ≠ slot.backing := fun hb => hother (Register.backing_inj.mp hb)
    rw [Processor.long, Processor.set_registers_of_ne _ _ hbacking,
      Machine.set_registers_of_ne _ _ hother]
    exact h.registers other

theorem setLong (h : Simulates origin base track machine processor) (slot : Register)
    (word : Word) :
    Simulates origin base track (machine.set slot word) (processor.setLong slot.backing word) :=
  h.set slot (Quad.ofLow word) (Quad.low_ofLow word)

-- A flag that nothing is known of.
theorem withFlag (h : Simulates origin base track machine processor) (flag other : Bool) :
    Simulates origin base { track with isCompared := false } (machine.withFlag flag)
      (processor.withFlag other) :=
  ⟨⟨h.registers, h.slots, h.pointer⟩, fun hcompared => by cases hcompared⟩

theorem withComparison (h : Simulates origin base track machine processor) (flag : Bool) :
    Simulates origin base { track with isCompared := true } (machine.withFlag flag)
      (processor.withFlag flag) :=
  ⟨⟨h.registers, h.slots, h.pointer⟩, fun _ => rfl⟩

theorem push (h : Simulates origin base track machine processor) (slot : Register) :
    Simulates origin base { track with height := track.height + 1 }
      { machine with stack := machine.registers slot :: machine.stack }
      (processor.push (processor.registers slot.backing)) := by
  obtain ⟨above, hheight, hprocessor, hmachine⟩ := h.slots
  refine ⟨⟨h.registers, ⟨processor.registers slot.backing :: above, ?_, ?_, ?_⟩, ?_⟩, h.flag⟩
  · simp [hheight]
  · simp [Processor.push, hprocessor]
  · have hslot : (processor.registers slot.backing).low = machine.registers slot := h.registers slot
    simp [hmachine, hslot]
  · simp only [Processor.push, h.pointer, BitVec.sub_sub]
    congr 1
    rw [Nat.mul_add, BitVec.ofNat_add]
    rfl

theorem pop {height : Nat} (h : Simulates origin base track machine processor)
    (hheight : track.height = height + 1) (slot : Register) :
    ∃ word rest next, machine.stack = word :: rest ∧
      processor.pop slot.backing = .ok next ∧
      Simulates origin base { track with height } { machine.set slot word with stack := rest }
        next := by
  obtain ⟨above, hlength, hprocessor, hmachine⟩ := h.slots
  rw [hheight] at hlength
  obtain ⟨quad, others, rfl⟩ := List.exists_cons_of_length_eq_add_one hlength
  have hset := h.set slot quad rfl
  refine ⟨quad.low, others.map Quad.low ++ origin.stack,
    { processor.set slot.backing quad with
      stackPointer := processor.stackPointer + 8
      stack := others ++ base.stack }, hmachine, ?_, ?_⟩
  · simp only [Processor.pop, hprocessor, List.cons_append]
  · refine ⟨⟨hset.registers, ⟨others, ?_, rfl, rfl⟩, ?_⟩, h.flag⟩
    · simpa using hlength
    · have hpointer := h.pointer
      rw [hheight, Nat.mul_add, BitVec.ofNat_add, ← BitVec.sub_sub] at hpointer
      simp only [hpointer]
      exact BitVec.sub_add_cancel _ _

theorem dividend_eq (h : Simulates origin base track machine processor) :
    processor.dividend = machine.dividend := by
  have hhigh := h.registers .dividendHigh
  have hlow := h.registers .accumulator
  simp only [Register.backing] at hhigh hlow
  rw [Processor.dividend, hhigh, hlow, Machine.dividend]

theorem value?_eq (h : Simulates origin base track machine processor) {operand : Operand}
    {backing : Processor.Operand} (hbacking : operand.backing? .long = some backing) :
    ∃ word, machine.value? operand = some word ∧ processor.long? backing = some word := by
  cases operand with
  | immediate value =>
    simp only [Operand.backing?, Option.ite_none_right_eq_some, Option.some.injEq] at hbacking
    obtain ⟨_, rfl⟩ := hbacking
    exact ⟨_, rfl, rfl⟩
  | register slot =>
    cases hbacking
    exact ⟨_, rfl, congrArg some (h.registers slot)⟩
  | foreign text => cases hbacking

variable (effect : Machine.FlagEffect) (processorEffect : Processor.FlagEffect)

theorem step_unary (h : Simulates origin base track machine processor) {op : UnaryOp}
    {operand : Operand} {backing : Processor.Operand} {next : Track}
    (hnext : track.next? (.unary op operand) = some next)
    (hbacking : operand.backing? op.width = some backing) (flag other : Bool) :
    Agree origin base (Simulates origin base next) (machine.stepUnary flag op operand)
      (processor.stepOperation other op.backing [backing]) := by
  cases operand with
  | register slot =>
    cases hbacking
    cases op with
    | push =>
      cases hnext
      exact h.push slot
    | pop =>
      simp only [Track.next?] at hnext
      cases hheight : track.height with
      | zero =>
        rw [hheight] at hnext
        cases hnext
      | succ height =>
        rw [hheight] at hnext
        cases hnext
        obtain ⟨word, rest, popped, hmachine, hprocessor, hpopped⟩ := h.pop hheight slot
        simp only [Machine.stepUnary, hmachine, Processor.stepOperation, UnaryOp.backing,
          UnaryOp.width, hprocessor]
        exact hpopped
    | neg =>
      cases hnext
      have hset := (h.setLong slot (-machine.registers slot)).withFlag flag other
      rw [← h.registers slot] at hset
      simp only [Machine.stepUnary, ← h.registers slot]
      exact hset
    | not =>
      cases hnext
      have hset := (h.setLong slot (~~~machine.registers slot)).withFlag flag other
      rw [← h.registers slot] at hset
      simp only [Machine.stepUnary, ← h.registers slot]
      exact hset
    | sete =>
      simp only [Track.next?, Option.ite_none_right_eq_some, Option.some.injEq] at hnext
      obtain ⟨hcompared, rfl⟩ := hnext
      apply h.set slot
      rw [Quad.low_setLowByte, h.flag hcompared, ← h.registers slot]
      rfl
    | idiv =>
      cases hnext
      have hdivisor := h.registers slot
      simp only [Machine.stepUnary, Machine.value?, Machine.divide, Processor.stepOperation,
        UnaryOp.backing, UnaryOp.width, Processor.divide, hdivisor, h.dividend_eq]
      cases quotient? machine.dividend (machine.registers slot).toInt with
      | none => exact trivial
      | some quotient =>
        exact ((h.setLong .accumulator _).setLong .dividendHigh _).withFlag flag other
  | immediate value => cases op <;> cases hnext
  | foreign text => cases op <;> cases hnext

theorem step_binary (h : Simulates origin base track machine processor) {op : BinaryOp}
    {source destination : Operand} {first second : Processor.Operand} {next : Track}
    (hnext : track.next? (.binary op source destination) = some next)
    (hfirst : source.backing? .long = some first)
    (hsecond : destination.backing? .long = some second) (flag other : Bool) :
    Agree origin base (Simulates origin base next) (machine.stepBinary flag op source destination)
      (processor.stepOperation other op.backing [first, second]) := by
  obtain ⟨word, hmachine, hprocessor⟩ := h.value?_eq hfirst
  cases destination with
  | register slot =>
    cases hsecond
    have hslot := h.registers slot
    cases op with
    | mov =>
      cases hnext
      simp only [Machine.stepBinary, hmachine, Processor.stepOperation, BinaryOp.backing,
        Processor.stepBinary, hprocessor]
      exact h.setLong slot word
    | cmp =>
      cases hnext
      simp only [Machine.stepBinary, hmachine, Processor.stepOperation, BinaryOp.backing,
        Processor.stepBinary, hprocessor, hslot]
      exact h.withComparison _
    | _ =>
      cases hnext
      simp only [Machine.stepBinary, hmachine, Processor.stepOperation, BinaryOp.backing,
        Processor.stepBinary, hprocessor, hslot]
      exact (h.setLong slot _).withFlag flag other
  | immediate value => cases op <;> cases hnext
  | foreign text => cases op <;> cases hnext

-- Every instruction that may follow keeps the two sides together, or ends both runs alike.
theorem step (h : Simulates origin base track machine processor) {instruction : Instruction}
    {statement : Processor.Statement} {next : Track}
    (hnext : track.next? instruction = some next)
    (hbacking : instruction.backing? = some statement) :
    Agree origin base (Simulates origin base next) (machine.step effect instruction)
      (processor.step processorEffect statement) := by
  cases instruction with
  | directive kind argument =>
    cases hnext
    cases hbacking
    exact h
  | label name =>
    cases hnext
    cases hbacking
    exact h
  | nullary op =>
    cases hbacking
    cases op with
    | ret =>
      cases hnext
      exact ⟨_, h.toMirrors⟩
    | signExtend =>
      cases hnext
      have hlow : processor.long .rax = machine.registers .accumulator := h.registers .accumulator
      simp only [Machine.step, Processor.step, NullaryOp.backing, Processor.stepOperation, hlow]
      exact (h.setLong .dividendHigh _).withFlag _ _
  | unary op operand =>
    obtain ⟨backing, hoperand, hstatement⟩ := Option.bind_eq_some_iff.mp hbacking
    cases hstatement
    exact h.step_unary hnext hoperand _ _
  | binary op source destination =>
    obtain ⟨first, hfirst, hrest⟩ := Option.bind_eq_some_iff.mp hbacking
    obtain ⟨second, hsecond, hstatement⟩ := Option.bind_eq_some_iff.mp hrest
    cases hstatement
    exact h.step_binary hnext hfirst hsecond _ _
  | foreign text => cases hbacking

-- A run by induction on its code, from one pair of states to the next.
theorem execute (h : Simulates origin base track machine processor) {code : List Instruction}
    {statements : List Processor.Statement} {final : Track}
    (hfinal : track.after? code = some final) (hcode : Backs code statements) :
    Agree origin base (Simulates origin base final) (Machine.execute effect code machine)
      (Processor.execute processorEffect statements processor) := by
  induction hcode generalizing track machine processor with
  | nil =>
    cases hfinal
    exact h
  | @cons instruction statement rest others hbacking _ ih =>
    obtain ⟨next, hnext, hrest⟩ := Option.bind_eq_some_iff.mp hfinal
    have hstep := h.step effect processorEffect hnext hbacking
    simp only [Machine.execute, Processor.execute, List.foldlM_cons]
    cases hmachine : machine.step effect instruction with
    | ok after =>
      cases hprocessor : processor.step processorEffect statement with
      | ok now =>
        rw [hmachine, hprocessor] at hstep
        exact ih hstep hrest
      | error halt =>
        rw [hmachine, hprocessor] at hstep
        exact absurd hstep id
    | error halt =>
      rw [hmachine] at hstep
      cases hprocessor : processor.step processorEffect statement with
      | ok now =>
        rw [hprocessor] at hstep
        cases halt <;> exact absurd hstep id
      | error other =>
        rw [hprocessor] at hstep
        cases halt <;> cases other <;> exact hstep

end Simulates

end Steps

end TinyC
