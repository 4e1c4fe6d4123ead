import Mathlib.Order.Basic

namespace TinyC

-- A recursive function with a budget of calls of itself that may be active at once. What a call
-- does is given in terms of the calls that it makes, and `refused` is what becomes of a call for
-- which nothing is left of the budget.
def withBudget {α : Type} (step : α → α) (refused : α) : Nat → α
  | 0 => refused
  | budget + 1 => step (withBudget step refused budget)

-- How many calls are active at once below a call and with it, given the calls that each call may
-- make.
structure Nests {ι : Type} (callees : ι → List ι) (calls : ι → Nat) : Prop where
  pos : ∀ i, 0 < calls i
  lt : ∀ i, ∀ j ∈ callees i, calls j < calls i
  exists_callee : ∀ i budget, budget + 1 < calls i → ∃ j ∈ callees i, budget < calls j

section

variable {ι β : Type} {callees : ι → List ι} {calls : ι → Nat} {step : (ι → β) → ι → β}
  {run refused : ι → β}

-- A budget of as many calls as are active at once is enough.
theorem Nests.withBudget_eq (hnests : Nests callees calls)
    (hstep : ∀ next i, (∀ j ∈ callees i, next j = run j) → step next i = run i) {budget : Nat}
    {i : ι} (h : calls i ≤ budget) : withBudget step refused budget i = run i := by
  induction budget generalizing i with
  | zero =>
    have hpos := hnests.pos i
    omega
  | succ budget ih =>
    apply hstep
    intro j hj
    have hless := hnests.lt i j hj
    apply ih
    omega

-- A smaller budget is not: if a call is refused as soon as one of the calls is that it makes, then
-- the refusal comes through to the first call.
theorem Nests.withBudget_refused (hnests : Nests callees calls) (good : ι → Prop) (bad : β → Prop)
    (hstep : ∀ next i, (∀ j ∈ callees i, next j = run j) → step next i = run i)
    (hgood : ∀ i, good i → ∀ j ∈ callees i, good j) (hrefused : ∀ i, bad (refused i))
    (hbad : ∀ next i, good i → (∀ j ∈ callees i, next j = run j ∨ bad (next j)) →
      (∃ j ∈ callees i, bad (next j)) → bad (step next i))
    {budget : Nat} {i : ι} (hi : good i) (h : budget < calls i) :
    bad (withBudget step refused budget i) := by
  induction budget generalizing i with
  | zero => exact hrefused i
  | succ budget ih =>
    obtain ⟨k, hk, hless⟩ := hnests.exists_callee i budget h
    apply hbad _ i hi
    · intro j hj
      by_cases hj' : calls j ≤ budget
      · exact .inl (hnests.withBudget_eq hstep hj')
      · exact .inr (ih (hgood i hi j hj) (Nat.lt_of_not_le hj'))
    · exact ⟨k, hk, ih (hgood i hi k hk) hless⟩

end

end TinyC
