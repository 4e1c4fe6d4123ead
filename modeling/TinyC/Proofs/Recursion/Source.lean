import TinyC.Proofs.Recursion.Calls
import TinyC.Proofs.Tree.Source

namespace TinyC.Node

-- The text of a chain as one call makes it, given the texts of its operands.
def sourceChain (call : Node → Except FormatError String) :
    Node → List (Except FormatError String) → Except FormatError String
  | binary _ left op right _, links =>
    sourceChain call left ((call right).map (fun right => op ++ " " ++ right) :: links)
  | first, links => chainSource (call first) links

-- What one call does for the text of an expression, given the texts that it calls for.
def sourceStep (call : Node → Except FormatError String) : Node → Except FormatError String
  | constant value _ => constantSource value
  | group inner _ => (call inner).map fun inner => "(" ++ inner ++ ")"
  | unary op operand _ => (call operand).map fun operand => op ++ operand
  | binary tier left op right place => sourceChain call (binary tier left op right place) []
  | other => .error (.unformattable other)

-- The text of an expression with a budget of calls that may be active at once.
def sourceWithin (exhausted : FormatError) : Nat → Node → Except FormatError String :=
  withBudget sourceStep fun _ => .error exhausted

section

variable {call : Node → Except FormatError String} {node : Node}

theorem sourceChain_eq (h : ∀ operand ∈ node.operands, call operand = operand.source)
    (links : List (Except FormatError String)) :
    sourceChain call node links = sourceWith node links := by
  induction node generalizing links with
  | binary tier left op right place ihleft ihright =>
    obtain ⟨hleft, hright⟩ := List.forall_mem_append.mp h
    rw [sourceChain, ihleft hleft, hright right (by simp)]
    rfl
  | _ =>
    rw [sourceChain, h _ (List.mem_singleton_self _), source_eq_plainSource, sourceWith_eq]
    exact fun _ _ _ _ _ heq => by cases heq

theorem sourceStep_eq (h : ∀ callee ∈ node.callees, call callee = callee.source) :
    sourceStep call node = node.source := by
  cases node with
  | group inner place =>
    rw [sourceStep, h inner (by simp [callees]), source_eq_plainSource inner]
    exact (source_eq_plainSource (group inner place)).symm
  | unary op operand place =>
    rw [sourceStep, h operand (by simp [callees]), source_eq_plainSource operand]
    exact (source_eq_plainSource (unary op operand place)).symm
  | binary tier left op right place =>
    rw [callees] at h
    exact sourceChain_eq h []
  | constant value place => exact (chainSource_nil _).symm
  | _ => rfl

theorem sourceWithin_eq (exhausted : FormatError) {budget : Nat} (h : node.calls ≤ budget) :
    node.sourceWithin exhausted budget = node.source :=
  nests_callees.withBudget_eq (fun _ _ => sourceStep_eq) h

-- The result is a text, unless there is no more of the budget.
def Settles (exhausted : FormatError) (result : Except FormatError String) : Prop :=
  (∃ text, result = .ok text) ∨ result = .error exhausted

section

variable {exhausted : FormatError} {first : Except FormatError String}
  {links : List (Except FormatError String)}

theorem mapM_exhausted (h : ∀ link ∈ links, Settles exhausted link)
    (hmem : .error exhausted ∈ links) : links.mapM id = .error exhausted := by
  induction links with
  | nil => cases hmem
  | cons link rest ih =>
    obtain ⟨hlink, hrest⟩ := List.forall_mem_cons.mp h
    rw [List.mapM_cons]
    rcases hlink with ⟨text, rfl⟩ | rfl
    · rcases List.mem_cons.mp hmem with heq | hmem
      · cases heq
      · rw [ih hrest hmem]
        rfl
    · rfl

theorem chainSource_exhausted (hfirst : Settles exhausted first)
    (hlinks : ∀ link ∈ links, Settles exhausted link)
    (h : first = .error exhausted ∨ .error exhausted ∈ links) :
    chainSource first links = .error exhausted := by
  rcases hfirst with ⟨text, rfl⟩ | rfl
  · rcases h with heq | hmem
    · cases heq
    · rw [chainSource, mapM_exhausted hlinks hmem]
      rfl
  · rfl

theorem Settles.map (h : Settles exhausted first) (write : String → String) :
    Settles exhausted (first.map write) := by
  rcases h with ⟨text, rfl⟩ | rfl
  · exact .inl ⟨write text, rfl⟩
  · exact .inr rfl

-- One operand for which there is nothing left is enough.
theorem sourceChain_exhausted
    (hoperands : ∀ operand ∈ node.operands, Settles exhausted (call operand))
    (hlinks : ∀ link ∈ links, Settles exhausted link)
    (h : (∃ operand ∈ node.operands, call operand = .error exhausted) ∨ .error exhausted ∈ links) :
    sourceChain call node links = .error exhausted := by
  induction node generalizing links with
  | binary tier left op right place ihleft ihright =>
    obtain ⟨hleft, hright⟩ := List.forall_mem_append.mp hoperands
    have hlink := (hright right (List.mem_singleton_self _)).map fun right => op ++ " " ++ right
    rw [sourceChain]
    apply ihleft hleft (List.forall_mem_cons.mpr ⟨hlink, hlinks⟩)
    rcases h with ⟨operand, hmem, hexhausted⟩ | hmem
    · rcases List.mem_append.mp hmem with hmem | hmem
      · exact .inl ⟨operand, hmem, hexhausted⟩
      · rw [List.mem_singleton.mp hmem] at hexhausted
        rw [hexhausted]
        exact .inr (List.mem_cons_self ..)
    · exact .inr (List.mem_cons_of_mem _ hmem)
  | _ =>
    rw [sourceChain]
    · apply chainSource_exhausted (hoperands _ (List.mem_singleton_self _)) hlinks
      rcases h with ⟨operand, hmem, hexhausted⟩ | hmem
      · rw [List.mem_singleton.mp hmem] at hexhausted
        exact .inl hexhausted
      · exact .inr hmem
    · exact fun _ _ _ _ _ heq => by cases heq

theorem sourceStep_exhausted (hcallees : ∀ callee ∈ node.callees, Settles exhausted (call callee))
    (h : ∃ callee ∈ node.callees, call callee = .error exhausted) :
    sourceStep call node = .error exhausted := by
  obtain ⟨callee, hmem, hexhausted⟩ := h
  cases node with
  | group inner place =>
    rw [List.mem_singleton.mp hmem] at hexhausted
    rw [sourceStep, hexhausted]
    rfl
  | unary op operand place =>
    rw [List.mem_singleton.mp hmem] at hexhausted
    rw [sourceStep, hexhausted]
    rfl
  | binary tier left op right place =>
    rw [callees] at hcallees hmem
    exact sourceChain_exhausted hcallees (List.forall_mem_nil _) (.inl ⟨callee, hmem, hexhausted⟩)
  | _ => cases hmem

end

theorem exists_source_of_mem_operands {node operand : Node} {text : String}
    (h : node.source = .ok text) (hmem : operand ∈ node.operands) :
    ∃ part, operand.source = .ok part := by
  induction node generalizing text with
  | binary tier left op right place ihleft ihright =>
    rw [source_eq_plainSource, plainSource, ← source_eq_plainSource, ← source_eq_plainSource] at h
    cases hleft : left.source with
    | error error =>
      rw [hleft] at h
      cases h
    | ok first =>
      rcases List.mem_append.mp hmem with hmem | hmem
      · exact ihleft hleft hmem
      · rw [List.mem_singleton.mp hmem]
        cases hright : right.source with
        | error error =>
          rw [hleft, hright] at h
          cases h
        | ok second => exact ⟨second, rfl⟩
  | _ =>
    rw [List.mem_singleton.mp hmem]
    exact ⟨text, h⟩

theorem exists_of_map_ok {result : Except FormatError String} {write : String → String}
    {text : String} (h : result.map write = .ok text) : ∃ part, result = .ok part := by
  cases result with
  | error error => cases h
  | ok part => exact ⟨part, rfl⟩

theorem exists_source_of_mem_callees {node callee : Node} {text : String}
    (h : node.source = .ok text) (hmem : callee ∈ node.callees) :
    ∃ part, callee.source = .ok part := by
  cases node with
  | group inner place =>
    rw [List.mem_singleton.mp hmem]
    rw [source_eq_plainSource, plainSource, ← source_eq_plainSource] at h
    exact exists_of_map_ok h
  | unary op operand place =>
    rw [List.mem_singleton.mp hmem]
    rw [source_eq_plainSource, plainSource, ← source_eq_plainSource] at h
    exact exists_of_map_ok h
  | binary tier left op right place =>
    rw [callees] at hmem
    exact exists_source_of_mem_operands h hmem
  | _ => cases hmem

-- A budget of fewer calls is not enough for the text of an expression that has one.
theorem sourceWithin_exhausted (exhausted : FormatError) {text : String}
    (h : node.source = .ok text) {budget : Nat} (hbudget : budget < node.calls) :
    node.sourceWithin exhausted budget = .error exhausted := by
  refine nests_callees.withBudget_refused (fun node => ∃ text, node.source = .ok text)
    (fun result => result = .error exhausted) (fun _ _ => sourceStep_eq) ?_ (fun _ => rfl) ?_
    ⟨text, h⟩ hbudget
  · rintro node ⟨text, htext⟩ callee hmem
    exact exists_source_of_mem_callees htext hmem
  · rintro next node ⟨text, htext⟩ hcallees hexhausted
    apply sourceStep_exhausted _ hexhausted
    intro callee hmem
    rcases hcallees callee hmem with heq | hbad
    · rw [heq]
      exact .inl (exists_source_of_mem_callees htext hmem)
    · exact .inr hbad

end

end TinyC.Node
