import TinyC.Proofs.Recursion.Budget
import TinyC.Proofs.Tree.Grammar

namespace TinyC.Node

-- The operands of the chain at the root of an expression, from left to right, however its
-- operators are spread over the tiers. What is no chain is its own only operand.
def operands : Node → List Node
  | binary _ left _ right _ => left.operands ++ [right]
  | other => [other]

-- The expressions for which a walk of an expression calls itself. It goes down the left operands
-- of a chain in one call.
def callees : Node → List Node
  | unary _ operand _ => [operand]
  | group inner _ => [inner]
  | binary tier left op right place => (binary tier left op right place).operands
  | _ => []

-- What a left operand takes in calls of its own: none where it goes on with the chain.
def ownCall : Node → Nat
  | binary _ _ _ _ _ => 0
  | _ => 1

-- The most calls that a walk of an expression has active at once.
def calls : Node → Nat
  | unary _ operand _ => operand.calls + 1
  | group inner _ => inner.calls + 1
  | binary _ left _ right _ => max (left.calls + left.ownCall) (right.calls + 1)
  | _ => 1

@[simp] theorem ownCall_binary (tier : Tier) (left : Node) (op : String) (right : Node)
    (place : Position) : (binary tier left op right place).ownCall = 0 := rfl

theorem calls_lt_of_mem_operands {node operand : Node} (h : operand ∈ node.operands) :
    operand.calls < node.calls + node.ownCall := by
  induction node with
  | binary tier left op right place ihleft ihright =>
    simp only [calls, ownCall_binary]
    rcases List.mem_append.mp h with hleft | hright
    · have hless := ihleft hleft
      omega
    · rw [List.mem_singleton.mp hright]
      omega
  | _ =>
    rw [List.mem_singleton.mp h]
    exact Nat.lt_succ_self _

theorem exists_mem_operands (node : Node) :
    ∃ operand ∈ node.operands, node.calls + node.ownCall = operand.calls + 1 := by
  induction node with
  | binary tier left op right place ihleft ihright =>
    obtain ⟨operand, hmem, hcalls⟩ := ihleft
    simp only [calls, ownCall_binary, operands]
    by_cases hright : left.calls + left.ownCall ≤ right.calls + 1
    · exact ⟨right, by simp, by omega⟩
    · exact ⟨operand, by simp [hmem], by omega⟩
  | _ => exact ⟨_, List.mem_singleton_self _, rfl⟩

theorem nests_callees : Nests callees calls where
  pos := by
    intro node
    cases node <;> simp only [calls] <;> omega
  lt := by
    intro node callee hmem
    cases node with
    | unary op operand place =>
      rw [List.mem_singleton.mp hmem]
      exact Nat.lt_succ_self _
    | group inner place =>
      rw [List.mem_singleton.mp hmem]
      exact Nat.lt_succ_self _
    | binary tier left op right place =>
      rw [callees] at hmem
      exact calls_lt_of_mem_operands hmem
    | _ => cases hmem
  exists_callee := by
    intro node budget hbudget
    cases node with
    | unary op operand place => exact ⟨operand, by simp [callees], Nat.lt_of_succ_lt_succ hbudget⟩
    | group inner place => exact ⟨inner, by simp [callees], Nat.lt_of_succ_lt_succ hbudget⟩
    | binary tier left op right place =>
      obtain ⟨operand, hmem, hcalls⟩ := (binary tier left op right place).exists_mem_operands
      refine ⟨operand, hmem, ?_⟩
      rw [ownCall_binary] at hcalls
      omega
    | _ =>
      simp only [calls] at hbudget
      omega

-- What has a call of its own as a left operand is no chain, and so not loose.
theorem ownCall_add_looseness_le {node : Node} {tier : Tier}
    (h : node.looseness ≤ tier.looseness) : node.ownCall + node.looseness ≤ tier.looseness := by
  have hpos : 0 < tier.looseness := by cases tier <;> decide
  cases node with
  | binary other left op right place => simpa using h
  | _ => exact hpos

-- A group or a unary operator costs one call, and what it stands before one for each tier.
theorem KeepsTiers.calls_le {node : Node} (h : node.KeepsTiers) :
    node.calls ≤ 3 * node.nesting + node.looseness + 1 := by
  induction node with
  | group inner place ih =>
    have hinner := ih h
    have hloose := inner.looseness_le
    simp only [calls, nesting, looseness]
    omega
  | unary op operand place ih =>
    have hoperand := ih h.2
    have hloose := h.1
    simp only [calls, nesting, looseness]
    omega
  | binary tier left op right place ihleft ihright =>
    obtain ⟨hleft, hright, hleftTiers, hrightTiers⟩ := h
    have hleftCalls := ihleft hleftTiers
    have hrightCalls := ihright hrightTiers
    have hown := ownCall_add_looseness_le hleft
    simp only [calls, nesting, looseness]
    omega
  | _ =>
    simp only [calls]
    omega

end TinyC.Node
