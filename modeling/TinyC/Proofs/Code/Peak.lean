import TinyC.Proofs.Code.Stack

namespace TinyC

namespace Node

-- The most words that the code of a tree has on the stack at once.
def peak : Node → Nat
  | bare _ => 0
  | constant _ _ => 0
  | unary _ operand _ => operand.peak
  | group inner _ => inner.peak
  | binary _ left _ right _ => max left.peak (right.peak + 1)
  | ret value _ => value.peak
  | function _ body _ => body.peak
  | program main _ => main.peak

-- The most groups on a path down a tree.
def groups : Node → Nat
  | bare _ => 0
  | constant _ _ => 0
  | unary _ operand _ => operand.groups
  | group inner _ => inner.groups + 1
  | binary _ left _ right _ => max left.groups right.groups
  | ret value _ => value.groups
  | function _ body _ => body.groups
  | program main _ => main.groups

theorem groups_le_nesting (node : Node) : node.groups ≤ node.nesting := by
  induction node <;> simp only [groups, nesting] <;> omega

-- Within a group only the right operands of the two tiers hold a word each while they are
-- computed.
theorem Supported.peak_le {node : Node} (h : node.Supported) (htiers : node.KeepsTiers) :
    node.peak ≤ node.looseness + 2 * node.groups := by
  induction h with
  | constant value place => exact Nat.zero_le _
  | @group inner place _ ih =>
    have hinner := ih htiers
    have hloose := inner.looseness_le
    simp only [peak, groups, looseness]
    omega
  | unary operator place _ ih =>
    have hoperand := ih htiers.2
    have hloose := htiers.1
    simp only [peak, groups, looseness]
    omega
  | @binary tier operator left right place _ _ _ ihleft ihright =>
    obtain ⟨hleft, hright, hleftTiers, hrightTiers⟩ := htiers
    have hleftPeak := ihleft hleftTiers
    have hrightPeak := ihright hrightTiers
    simp only [peak, groups, looseness]
    omega

end Node

theorem UnaryOperator.isNeutral_code (operator : UnaryOperator) :
    ∀ instruction ∈ operator.code, instruction.IsNeutral := by
  cases operator <;> simp [code, Instruction.IsNeutral, Instruction.isPush, Instruction.isPop]

theorem BinaryOperator.isNeutral_code (operator : BinaryOperator) :
    ∀ instruction ∈ operator.code, instruction.IsNeutral := by
  cases operator <;> simp [code, Instruction.IsNeutral, Instruction.isPush, Instruction.isPop]

open Instruction (Peaks Closed pushes pops)

theorem Node.Supported.peaks_code {node : Node} (h : node.Supported) :
    Peaks node.code node.peak := by
  induction h with
  | constant value place =>
    refine .of_neutral fun instruction hmem => ?_
    rw [List.mem_singleton.mp hmem]
    exact ⟨rfl, rfl⟩
  | group place _ ih => exact ih
  | unary operator place _ ih =>
    have hwhole := ih.append (.of_neutral operator.isNeutral_code)
    rw [code_unary]
    simpa [peak] using hwhole
  | @binary tier operator left right place hop _ _ ihleft ihright =>
    have hright := ihright.enclosed (.register .accumulator) (.register .scratch)
    have hwhole := (ihleft.append hright).append (.of_neutral operator.isNeutral_code)
    rw [code_binary hop]
    simpa [peak] using hwhole

-- How code uses the stack up to the return at its end: nothing below the start is read, at most
-- `peak` words lie above it, and each is taken back by the pop that belongs to its push.
structure UsesStack (body : List Instruction) (peak : Nat) : Prop where
  peaks : Peaks (body ++ [.nullary .ret]) peak
  ret_not_mem : .nullary .ret ∉ body
  -- At each place a run goes on, unless a division has faulted.
  runs : ∀ (effect : Machine.FlagEffect) (machine : Machine) (n : Nat),
    machine.execute effect (body.take n) = .error .faulted ∨
      ∃ next above, machine.execute effect (body.take n) = .ok next ∧
        next.stack = above ++ machine.stack ∧
        above.length + pops (body.take n) = pushes (body.take n)
  matched : ∀ {before after : List Instruction} {destination : Operand},
    body = before ++ .unary .pop destination :: after →
      ∃ front source middle, before = front ++ .unary .push source :: middle ∧ Closed middle
  taken : ∀ {front middle after : List Instruction} {source destination : Operand},
    body = front ++ .unary .push source :: (middle ++ .unary .pop destination :: after) →
    Closed middle → ∀ (effect : Machine.FlagEffect) {machine pushing popping next : Machine},
      machine.execute effect front = .ok pushing →
      machine.execute effect (front ++ .unary .push source :: middle) = .ok popping →
      popping.step effect (.unary .pop destination) = .ok next →
        ∃ slot, destination = .register slot ∧
          pushing.value? source = some (next.registers slot) ∧ next.stack = pushing.stack
  untouched : ∀ instruction ∈ body, instruction.isPush = false → instruction.isPop = false →
    ∀ (effect : Machine.FlagEffect) {machine next : Machine},
      machine.step effect instruction = .ok next → next.stack = machine.stack

theorem ret_not_mem_functionHead (name : Option String) :
    Instruction.nullary .ret ∉ functionHead name := by
  simp [functionHead]

theorem UnaryOperator.ret_not_mem_code (operator : UnaryOperator) :
    Instruction.nullary .ret ∉ operator.code := by
  cases operator <;> simp [code]

theorem BinaryOperator.ret_not_mem_code (operator : BinaryOperator) :
    Instruction.nullary .ret ∉ operator.code := by
  cases operator <;> simp [code]

theorem Node.Supported.ret_not_mem_code {node : Node} (h : node.Supported) :
    Instruction.nullary .ret ∉ node.code := by
  induction h with
  | constant value place => simp [code]
  | group place _ ih => exact ih
  | unary operator place _ ih => simp [code_unary, ih, operator.ret_not_mem_code]
  | @binary tier operator left right place hop _ _ ihleft ihright =>
    simp [code_binary hop, ihleft, ihright, operator.ret_not_mem_code]

-- The code of a supported expression comes to no other end than a fault in a division.
theorem Machine.runs_of_closed {body : List Instruction} {stack : List Word} {word? : Option Word}
    {effect : FlagEffect} {machine : Machine} (hbody : Closed body)
    (h : Leaves stack word? (machine.execute effect body)) (n : Nat) :
    machine.execute effect (body.take n) = .error .faulted ∨
      ∃ next above, machine.execute effect (body.take n) = .ok next ∧
        next.stack = above ++ machine.stack ∧
        above.length + pops (body.take n) = pushes (body.take n) := by
  cases hrun : machine.execute effect (body.take n) with
  | error halt =>
    have hwhole := execute_append_error effect hrun (body.drop n)
    rw [List.take_append_drop] at hwhole
    rw [hwhole] at h
    cases word? with
    | none => exact .inl h
    | some word =>
      obtain ⟨_, hok, _⟩ := h
      cases hok
  | ok next =>
    have htake : ∀ m, pops ((body.take n).take m) ≤ pushes ((body.take n).take m) := by
      intro m
      rw [List.take_take]
      exact hbody.pops_le (min m n)
    obtain ⟨above, habove, hlength⟩ := stack_of_execute htake hrun
    exact .inr ⟨next, above, rfl, habove, hlength⟩

theorem Node.Supported.usesStack {value : Node} (h : value.Supported) (name : Option String) :
    UsesStack (functionHead name ++ value.code) value.peak := by
  have hhead : ∀ instruction ∈ functionHead name, instruction.IsNeutral := by
    simp [functionHead, Instruction.IsNeutral, Instruction.isPush, Instruction.isPop]
  have hret : ∀ instruction ∈ [Instruction.nullary .ret], instruction.IsNeutral := by
    simp [Instruction.IsNeutral, Instruction.isPush, Instruction.isPop]
  have hbody : Peaks (functionHead name ++ value.code) value.peak := by
    simpa using (Peaks.of_neutral hhead).append h.peaks_code
  refine ⟨?_, ?_, ?_, ?_, ?_, ?_⟩
  · simpa using hbody.append (.of_neutral hret)
  · simp [ret_not_mem_functionHead, h.ret_not_mem_code]
  · intro effect machine n
    exact Machine.runs_of_closed hbody.toClosed
      (Machine.leaves_functionCode effect h name machine) n
  · rintro before after destination heq
    have hclosed := hbody.toClosed
    rw [heq] at hclosed
    exact hclosed.exists_push
  · intro front middle after source destination _ hmiddle effect machine pushing popping next
    exact Machine.pop_takes_push hmiddle
  · intro instruction _ hpush hpop effect machine next hstep
    rcases Machine.stack_of_step hstep with ⟨_, _, rfl, _⟩ | ⟨_, rfl, _⟩ | ⟨_, hsame⟩
    · cases hpush
    · cases hpop
    · exact hsame

-- The code of a program has exactly as many words on the stack at once as the right operands
-- around an operand count, and each pop takes the word of its push. For a tree that has been
-- read this is at most two for each group on a path and two more, which the limit on nesting
-- bounds, however long the chains are.
theorem stack_use_is_bounded_by_nesting :
    (∀ {program value : Node} {name : Option String}, program.Returns name value → ∃ body,
      generate program .silent = (.ok (body ++ [.nullary .ret]), .silent) ∧
        (∀ log code, (generate program log).1 = .ok code → code = body ++ [.nullary .ret]) ∧
        UsesStack body program.peak) ∧
    ∀ {tokens : List Token} {limit : Int} {log : Log} {tree : Node}, 0 ≤ limit →
      (parse tokens limit log).1 = .ok tree → ∃ body,
        generate tree .silent = (.ok (body ++ [.nullary .ret]), .silent) ∧
          UsesStack body tree.peak ∧
          (∀ n, pushes ((body ++ [Instruction.nullary .ret]).take n) ≤
            pops ((body ++ [Instruction.nullary .ret]).take n) + 2 * (tree.groups + 1)) ∧
          2 * ((tree.groups : Int) + 1) ≤ 2 * (limit + 1) := by
  have hreturns : ∀ {program value : Node} {name : Option String}, program.Returns name value →
      UsesStack (functionHead name ++ value.code) program.peak := by
    rintro program value name ⟨⟨_, _, _, rfl⟩, hsupported⟩
    exact hsupported.usesStack name
  refine ⟨?_, ?_⟩
  · intro program value name h
    exact ⟨_, generate_of_returns h, fun _ _ => h.code_eq, hreturns h⟩
  · intro tokens limit log tree hlimit htree
    obtain ⟨name, value, h⟩ := Parser.returns_of_parse htree
    obtain ⟨hderives, hfits⟩ := Parser.derives_of_parse htree
    have hpeak : tree.peak ≤ 2 * (tree.groups + 1) := by
      have htiers := hderives.keepsTiers
      obtain ⟨⟨_, _, _, rfl⟩, hsupported⟩ := h
      have hle := hsupported.peak_le htiers
      have hloose := value.looseness_le
      simp only [Node.peak, Node.groups]
      omega
    have hgroups := tree.groups_le_nesting
    refine ⟨_, generate_of_returns h, hreturns h, ?_, ?_⟩
    · intro n
      have hle := (hreturns h).peaks.pushes_le n
      omega
    · unfold Parser.Fits at hfits
      omega

-- The tokens of `int f() { return 1 + 2 * (3 + 4 * 5); }`, all at one place.
def nestedProductTokens : List Token :=
  [⟨.intKeyword, none, .start⟩, ⟨.identifier, some "f", .start⟩, ⟨.leftParen, none, .start⟩,
   ⟨.rightParen, none, .start⟩, ⟨.leftBrace, none, .start⟩, ⟨.returnKeyword, none, .start⟩,
   ⟨.decimal, some "1", .start⟩, ⟨.plus, none, .start⟩, ⟨.decimal, some "2", .start⟩,
   ⟨.star, none, .start⟩, ⟨.leftParen, none, .start⟩, ⟨.decimal, some "3", .start⟩,
   ⟨.plus, none, .start⟩, ⟨.decimal, some "4", .start⟩, ⟨.star, none, .start⟩,
   ⟨.decimal, some "5", .start⟩, ⟨.rightParen, none, .start⟩, ⟨.semicolon, none, .start⟩,
   ⟨.rightBrace, none, .start⟩]

def nestedProduct : Node :=
  .program (.function (some "f") (.ret
    (.binary .additive (.constant 1 .start) "+"
      (.binary .multiplicative (.constant 2 .start) "*"
        (.group (.binary .additive (.constant 3 .start) "+"
          (.binary .multiplicative (.constant 4 .start) "*" (.constant 5 .start) .start) .start)
          .start) .start) .start) .start) .start) .start

-- One group is enough for four words, and for no more.
theorem stack_use_is_bounded_by_nesting_nestedProduct :
    (parse nestedProductTokens 1 .silent).1 = .ok nestedProduct ∧ nestedProduct.groups = 1 ∧
      (∃ name value, nestedProduct.Returns name value) ∧
      (∃ body, generate nestedProduct .silent =
          (.ok (body ++ [Instruction.nullary .ret]), .silent) ∧ UsesStack body 4) ∧
      ∃ body, generate nestedProduct .silent =
          (.ok (body ++ [Instruction.nullary .ret]), .silent) ∧
        ∀ n, pushes ((body ++ [Instruction.nullary .ret]).take n) ≤
          pops ((body ++ [Instruction.nullary .ret]).take n) + 4 := by
  have htree : (parse nestedProductTokens 1 .silent).1 = .ok nestedProduct := by decide +kernel
  obtain ⟨name, value, hreturns⟩ := Parser.returns_of_parse htree
  obtain ⟨body, hbody, _, huses⟩ := stack_use_is_bounded_by_nesting.1 hreturns
  obtain ⟨other, hother, _, hbound, _⟩ := stack_use_is_bounded_by_nesting.2 (by decide) htree
  exact ⟨htree, rfl, ⟨name, value, hreturns⟩, ⟨body, hbody, huses⟩, other, hother, hbound⟩

end TinyC
