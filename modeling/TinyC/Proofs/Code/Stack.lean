import Mathlib.Data.List.Induction
import TinyC.Proofs.Code.Correctness

namespace TinyC

namespace Instruction

def isPush : Instruction → Bool
  | unary .push _ => true
  | _ => false

def isPop : Instruction → Bool
  | unary .pop _ => true
  | _ => false

-- The instruction leaves the stack alone.
def IsNeutral (instruction : Instruction) : Prop :=
  instruction.isPush = false ∧ instruction.isPop = false

theorem push_or_pop_or_neutral (instruction : Instruction) :
    (∃ source, instruction = unary .push source) ∨
      (∃ destination, instruction = unary .pop destination) ∨ instruction.IsNeutral := by
  cases instruction with
  | unary op operand =>
    cases op with
    | push => exact .inl ⟨operand, rfl⟩
    | pop => exact .inr (.inl ⟨operand, rfl⟩)
    | _ => exact .inr (.inr ⟨rfl, rfl⟩)
  | _ => exact .inr (.inr ⟨rfl, rfl⟩)

-- How often code pushes a word, and how often it takes one back.
def pushes (code : List Instruction) : Nat := code.countP isPush

def pops (code : List Instruction) : Nat := code.countP isPop

-- Code that takes back all that it pushes, and nothing that was there before.
structure Closed (code : List Instruction) : Prop where
  pops_le : ∀ n, pops (code.take n) ≤ pushes (code.take n)
  pushes_eq : pushes code = pops code

-- Closed code that has at most `peak` words on the stack, and so many at some place.
structure Peaks (code : List Instruction) (peak : Nat) : Prop extends Closed code where
  pushes_le : ∀ n, pushes (code.take n) ≤ pops (code.take n) + peak
  reached : ∃ n, pushes (code.take n) = pops (code.take n) + peak

section Counts

variable {code first second : List Instruction}

@[simp] theorem pushes_append (first second : List Instruction) :
    pushes (first ++ second) = pushes first + pushes second := List.countP_append

@[simp] theorem pops_append (first second : List Instruction) :
    pops (first ++ second) = pops first + pops second := List.countP_append

@[simp] theorem pushes_nil : pushes [] = 0 := rfl

@[simp] theorem pops_nil : pops [] = 0 := rfl

@[simp] theorem pushes_push (source : Operand) (rest : List Instruction) :
    pushes (unary .push source :: rest) = pushes rest + 1 := List.countP_cons_of_pos rfl

@[simp] theorem pops_push (source : Operand) (rest : List Instruction) :
    pops (unary .push source :: rest) = pops rest := List.countP_cons_of_neg nofun

@[simp] theorem pushes_pop (destination : Operand) (rest : List Instruction) :
    pushes (unary .pop destination :: rest) = pushes rest := List.countP_cons_of_neg nofun

@[simp] theorem pops_pop (destination : Operand) (rest : List Instruction) :
    pops (unary .pop destination :: rest) = pops rest + 1 := List.countP_cons_of_pos rfl

-- A part of code that is put together lies in the first piece, or goes on in the second.
theorem counts_take_append (first second : List Instruction) (n : Nat) :
    (n ≤ first.length ∧ pushes ((first ++ second).take n) = pushes (first.take n) ∧
      pops ((first ++ second).take n) = pops (first.take n)) ∨
    (pushes ((first ++ second).take n) = pushes first + pushes (second.take (n - first.length)) ∧
      pops ((first ++ second).take n) = pops first + pops (second.take (n - first.length))) := by
  by_cases hn : n ≤ first.length
  · rw [List.take_append_of_le_length hn]
    exact .inl ⟨hn, rfl, rfl⟩
  · refine .inr ?_
    rw [List.take_append, List.take_of_length_le (by omega), pushes_append, pops_append]
    exact ⟨rfl, rfl⟩

theorem counts_of_neutral (h : ∀ instruction ∈ code, instruction.IsNeutral) :
    pushes code = 0 ∧ pops code = 0 :=
  ⟨List.countP_eq_zero.mpr fun instruction hmem => by simp [(h instruction hmem).1],
    List.countP_eq_zero.mpr fun instruction hmem => by simp [(h instruction hmem).2]⟩

theorem Peaks.of_neutral (h : ∀ instruction ∈ code, instruction.IsNeutral) : Peaks code 0 := by
  have hwhole := counts_of_neutral h
  have htake : ∀ n, pushes (code.take n) = 0 ∧ pops (code.take n) = 0 := fun n =>
    counts_of_neutral fun instruction hmem => h instruction (List.mem_of_mem_take hmem)
  refine ⟨⟨?_, ?_⟩, ?_, 0, rfl⟩
  · intro n
    exact Nat.le_of_eq ((htake n).2.trans (htake n).1.symm)
  · exact hwhole.1.trans hwhole.2.symm
  · intro n
    exact Nat.le_of_eq ((htake n).1.trans (htake n).2.symm)

theorem Closed.append (hfirst : Closed first) (hsecond : Closed second) :
    Closed (first ++ second) := by
  refine ⟨?_, ?_⟩
  · intro n
    have hleft := hfirst.pops_le n
    have hright := hsecond.pops_le (n - first.length)
    have hwhole := hfirst.pushes_eq
    rcases counts_take_append first second n with ⟨_, hpushes, hpops⟩ | ⟨hpushes, hpops⟩ <;> omega
  · rw [pushes_append, pops_append, hfirst.pushes_eq, hsecond.pushes_eq]

theorem Peaks.append {peak other : Nat} (hfirst : Peaks first peak) (hsecond : Peaks second other) :
    Peaks (first ++ second) (max peak other) := by
  have hwhole := hfirst.pushes_eq
  refine ⟨hfirst.toClosed.append hsecond.toClosed, ?_, ?_⟩
  · intro n
    have hleft := hfirst.pushes_le n
    have hright := hsecond.pushes_le (n - first.length)
    rcases counts_take_append first second n with ⟨_, hpushes, hpops⟩ | ⟨hpushes, hpops⟩ <;> omega
  · rcases Nat.le_total other peak with hle | hle
    · obtain ⟨n, hn⟩ := hfirst.reached
      refine ⟨min n first.length, ?_⟩
      rw [Nat.max_eq_left hle, List.take_append_of_le_length (Nat.min_le_right _ _),
        ← List.take_eq_take_min]
      exact hn
    · obtain ⟨n, hn⟩ := hsecond.reached
      refine ⟨first.length + n, ?_⟩
      rw [Nat.max_eq_right hle, List.take_length_add_append, pushes_append, pops_append]
      omega

variable (source destination : Operand)

theorem counts_take_pop (n : Nat) :
    pushes ([unary .pop destination].take n) = 0 ∧ pops ([unary .pop destination].take n) ≤ 1 := by
  cases n <;> simp

-- What is pushed in front of code lies below all that the code pushes, until it is taken back.
theorem Closed.enclosed (h : Closed code) :
    Closed (.unary .push source :: (code ++ [.unary .pop destination])) := by
  have hwhole := h.pushes_eq
  refine ⟨?_, ?_⟩
  · intro n
    cases n with
    | zero => exact Nat.le_refl _
    | succ n =>
      have hinner := h.pops_le n
      obtain ⟨hpush, hpop⟩ := counts_take_pop destination (n - code.length)
      rw [List.take_succ_cons, pushes_push, pops_push]
      rcases counts_take_append code [.unary .pop destination] n with ⟨_, hpushes, hpops⟩ |
        ⟨hpushes, hpops⟩ <;> omega
  · simp [hwhole]

theorem Peaks.enclosed {peak : Nat} (h : Peaks code peak) :
    Peaks (.unary .push source :: (code ++ [.unary .pop destination])) (peak + 1) := by
  have hwhole := h.pushes_eq
  refine ⟨h.toClosed.enclosed source destination, ?_, ?_⟩
  · intro n
    cases n with
    | zero => exact Nat.zero_le _
    | succ n =>
      have hinner := h.pushes_le n
      obtain ⟨hpush, hpop⟩ := counts_take_pop destination (n - code.length)
      rw [List.take_succ_cons, pushes_push, pops_push]
      rcases counts_take_append code [.unary .pop destination] n with ⟨_, hpushes, hpops⟩ |
        ⟨hpushes, hpops⟩ <;> omega
  · obtain ⟨n, hn⟩ := h.reached
    refine ⟨min n code.length + 1, ?_⟩
    rw [List.take_succ_cons, pushes_push, pops_push,
      List.take_append_of_le_length (Nat.min_le_right _ _), ← List.take_eq_take_min]
    omega

end Counts

-- Code that has pushed more than it took back has a last push that is still open.
theorem exists_open_push {code : List Instruction} (h : pops code < pushes code) :
    ∃ front source middle, code = front ++ .unary .push source :: middle ∧ Closed middle := by
  induction hlength : code.length using Nat.strongRecOn generalizing code with
  | ind length ih =>
    rcases List.eq_nil_or_concat code with rfl | ⟨init, last, rfl⟩
    · exact absurd h (Nat.lt_irrefl 0)
    have hinit : init.length < length := by
      rw [← hlength]
      simp
    rw [List.concat_eq_append, pushes_append, pops_append] at h
    rcases push_or_pop_or_neutral last with ⟨source, rfl⟩ | ⟨destination, rfl⟩ | hneutral
    · exact ⟨init, source, [], by simp, (Peaks.of_neutral (by simp)).toClosed⟩
    · rw [pushes_pop, pops_pop, pushes_nil, pops_nil] at h
      -- The pop takes the word of the last open push before it, so the one before that is open.
      obtain ⟨front, inner, middle, rfl, hmiddle⟩ := ih init.length hinit (by omega) rfl
      have hwhole := hmiddle.pushes_eq
      rw [pushes_append, pops_append, pushes_push, pops_push] at h
      have hfront : front.length < length := by
        simp only [List.length_append] at hinit
        omega
      obtain ⟨outer, source, rest, rfl, hrest⟩ := ih front.length hfront (by omega) rfl
      exact ⟨outer, source, rest ++ .unary .push inner :: (middle ++ [.unary .pop destination]),
        by simp, hrest.append (hmiddle.enclosed inner destination)⟩
    · have hlast : ∀ instruction ∈ [last], instruction.IsNeutral := by simpa using hneutral
      have hcounts := counts_of_neutral hlast
      obtain ⟨front, source, middle, rfl, hmiddle⟩ := ih init.length hinit (by omega) rfl
      exact ⟨front, source, middle ++ [last], by simp,
        hmiddle.append (Peaks.of_neutral hlast).toClosed⟩

-- A pop in closed code has an open push before it.
theorem Closed.exists_push {before after : List Instruction} {destination : Operand}
    (h : Closed (before ++ .unary .pop destination :: after)) :
    ∃ front source middle, before = front ++ .unary .push source :: middle ∧ Closed middle := by
  apply exists_open_push
  have hle := h.pops_le (before.length + 1)
  rw [List.take_length_add_append, List.take_succ_cons, List.take_zero, pops_append,
    pushes_append, pushes_pop, pops_pop, pushes_nil, pops_nil] at hle
  omega

end Instruction

namespace Machine

variable {effect : FlagEffect}

-- What one step does to the stack.
theorem stack_of_step {instruction : Instruction} {machine next : Machine}
    (h : machine.step effect instruction = .ok next) :
    (∃ source word, instruction = .unary .push source ∧ machine.value? source = some word ∧
      next.stack = word :: machine.stack) ∨
    (∃ slot, instruction = .unary .pop (.register slot) ∧
      machine.stack = next.registers slot :: next.stack) ∨
    (instruction.IsNeutral ∧ next.stack = machine.stack) := by
  cases instruction with
  | directive kind argument =>
    cases h
    exact .inr (.inr ⟨⟨rfl, rfl⟩, rfl⟩)
  | label name =>
    cases h
    exact .inr (.inr ⟨⟨rfl, rfl⟩, rfl⟩)
  | nullary op =>
    cases op with
    | ret => cases h
    | signExtend =>
      cases h
      exact .inr (.inr ⟨⟨rfl, rfl⟩, rfl⟩)
  | unary op operand =>
    simp only [step] at h
    cases op with
    | push =>
      simp only [stepUnary] at h
      split at h
      · cases h
      · next word hword =>
        cases h
        exact .inl ⟨operand, word, rfl, hword, rfl⟩
    | pop =>
      cases operand with
      | register slot =>
        simp only [stepUnary] at h
        split at h
        · cases h
        · next word rest hstack =>
          cases h
          exact .inr (.inl ⟨slot, rfl, by simp [hstack, set_registers_self]⟩)
      | _ => cases h
    | idiv =>
      refine .inr (.inr ⟨⟨rfl, rfl⟩, ?_⟩)
      simp only [stepUnary] at h
      split at h
      · cases h
      · simp only [divide] at h
        split at h <;> cases h
        rfl
    | _ =>
      refine .inr (.inr ⟨⟨rfl, rfl⟩, ?_⟩)
      cases operand with
      | register slot =>
        cases h
        rfl
      | _ => cases h
  | binary op source destination =>
    refine .inr (.inr ⟨⟨rfl, rfl⟩, ?_⟩)
    simp only [step, stepBinary] at h
    split at h
    · cases op <;> cases h <;> rfl
    · cases h
  | foreign text => cases h

theorem of_execute_append_ok {first second : List Instruction} {machine next : Machine}
    (h : machine.execute effect (first ++ second) = .ok next) :
    ∃ middle, machine.execute effect first = .ok middle ∧
      middle.execute effect second = .ok next := by
  cases hfirst : machine.execute effect first with
  | error halt =>
    rw [execute_append_error effect hfirst] at h
    cases h
  | ok middle =>
    rw [execute_append_ok effect hfirst] at h
    exact ⟨middle, rfl, h⟩

theorem of_execute_cons_ok {instruction : Instruction} {rest : List Instruction}
    {machine next : Machine} (h : machine.execute effect (instruction :: rest) = .ok next) :
    ∃ middle, machine.step effect instruction = .ok middle ∧
      middle.execute effect rest = .ok next := by
  cases hstep : machine.step effect instruction with
  | error halt =>
    rw [execute, List.foldlM_cons, hstep] at h
    cases h
  | ok middle =>
    rw [execute_cons_ok effect hstep] at h
    exact ⟨middle, rfl, h⟩

-- Code that never takes back more than it pushed leaves its open words on top of the stack.
theorem stack_of_execute {code : List Instruction}
    (hcode : ∀ n, Instruction.pops (code.take n) ≤ Instruction.pushes (code.take n))
    {machine next : Machine} (h : machine.execute effect code = .ok next) :
    ∃ above, next.stack = above ++ machine.stack ∧
      above.length + Instruction.pops code = Instruction.pushes code := by
  induction code using List.reverseRecOn generalizing next with
  | nil =>
    cases h
    exact ⟨[], rfl, rfl⟩
  | append_singleton init last ih =>
    have hinit : ∀ n, Instruction.pops (init.take n) ≤ Instruction.pushes (init.take n) := by
      intro n
      have htake := hcode (min n init.length)
      rwa [List.take_append_of_le_length (Nat.min_le_right _ _), ← List.take_eq_take_min] at htake
    obtain ⟨middle, hmiddle, hlast⟩ := of_execute_append_ok h
    obtain ⟨_, hstep, hnext⟩ := of_execute_cons_ok hlast
    cases hnext
    obtain ⟨above, habove, hlength⟩ := ih hinit hmiddle
    have hwhole := hcode (init.length + 1)
    rw [List.take_of_length_le (by simp)] at hwhole
    simp only [Instruction.pops_append, Instruction.pushes_append] at hwhole ⊢
    rcases stack_of_step hstep with ⟨source, word, rfl, _, hpush⟩ | ⟨slot, rfl, hpop⟩ |
      ⟨hneutral, hsame⟩
    · refine ⟨word :: above, by rw [hpush, habove, List.cons_append], ?_⟩
      simp only [List.length_cons, Instruction.pushes_push, Instruction.pops_push,
        Instruction.pushes_nil, Instruction.pops_nil]
      omega
    · simp only [Instruction.pushes_pop, Instruction.pops_pop, Instruction.pushes_nil,
        Instruction.pops_nil] at hwhole ⊢
      cases above with
      | nil =>
        simp only [List.length_nil] at hlength
        omega
      | cons word rest =>
        rw [habove, List.cons_append, List.cons.injEq] at hpop
        refine ⟨rest, hpop.2.symm, ?_⟩
        simp only [List.length_cons] at hlength
        omega
    · have hcounts : Instruction.pushes [last] = 0 ∧ Instruction.pops [last] = 0 :=
        Instruction.counts_of_neutral (by simpa using hneutral)
      exact ⟨above, by rw [hsame, habove], by omega⟩

-- A pop takes the word of the push before the closed code in front of it.
theorem pop_takes_push {front middle : List Instruction} {source destination : Operand}
    (hmiddle : Instruction.Closed middle) {machine pushing popping next : Machine}
    (hpushing : machine.execute effect front = .ok pushing)
    (hpopping : machine.execute effect (front ++ .unary .push source :: middle) = .ok popping)
    (hnext : popping.step effect (.unary .pop destination) = .ok next) :
    ∃ slot, destination = .register slot ∧ pushing.value? source = some (next.registers slot) ∧
      next.stack = pushing.stack := by
  rw [execute_append_ok effect hpushing] at hpopping
  obtain ⟨opened, hpush, hrun⟩ := of_execute_cons_ok hpopping
  obtain ⟨above, habove, hlength⟩ := stack_of_execute hmiddle.pops_le hrun
  have hwhole := hmiddle.pushes_eq
  obtain rfl : above = [] := List.length_eq_zero_iff.mp (by omega)
  rcases stack_of_step hpush with ⟨_, word, hsource, hword, hopen⟩ | ⟨_, hother, _⟩ | ⟨hneutral, _⟩
  · cases hsource
    rcases stack_of_step hnext with ⟨_, _, hother, _⟩ | ⟨slot, hslot, htaken⟩ | ⟨hneutral, _⟩
    · cases hother
    · cases hslot
      rw [habove, List.nil_append, hopen, List.cons.injEq] at htaken
      exact ⟨slot, rfl, by rw [hword, htaken.1], htaken.2.symm⟩
    · cases hneutral.2
  · cases hother
  · cases hneutral.1

end Machine

end TinyC
