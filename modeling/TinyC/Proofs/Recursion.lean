import TinyC.Proofs.Code.Peak
import TinyC.Proofs.Recursion.Code
import TinyC.Proofs.Recursion.Reading
import TinyC.Proofs.Recursion.Source

namespace TinyC

-- A walk of the value of a tree that has been read takes three calls for each level of nesting,
-- and three.
theorem Node.Returns.calls_le {tree value : Node} {name : Option String}
    (htree : tree.Returns name value) (htiers : tree.KeepsTiers) :
    value.calls ≤ 3 * (tree.nesting + 1) := by
  obtain ⟨⟨_, _, _, rfl⟩, _⟩ := htree
  have hvalue : value.KeepsTiers := htiers
  have hcalls := hvalue.calls_le
  have hloose := value.looseness_le
  simp only [nesting]
  omega

-- However long a text is, the limit on nesting bounds the calls that are active at once. Reading
-- takes one for each level and one more, whether or not it accepts the tokens, and generating or
-- formatting a tree that has been read takes three for each level and three more. A budget of as
-- many calls changes nothing, whatever error would tell that it is spent. For a tree that has been
-- read, no smaller budget is enough than its nesting and its value ask for.
theorem recursion_is_bounded_by_nesting (limit : Nat) (tokens : List Token) (log : Log) :
    (∀ exhausted budget, limit + 1 ≤ budget →
      Parser.parseWithin exhausted budget tokens limit log = parse tokens limit log) ∧
    ∀ tree, (parse tokens limit log).1 = .ok tree → ∃ name value, tree.Returns name value ∧
      tree.nesting ≤ limit ∧ value.calls ≤ 3 * (limit + 1) ∧ ∀ budget,
        (tree.nesting < budget → ∀ exhausted,
          Parser.parseWithin exhausted budget tokens limit log = parse tokens limit log) ∧
        (budget ≤ tree.nesting → ∀ exhausted,
          Parser.parseWithin exhausted budget tokens limit log = (.error exhausted, log)) ∧
        (value.calls ≤ budget →
          (∀ exhausted other, generateWithin exhausted budget tree other = generate tree other) ∧
          ∀ exhausted, value.sourceWithin exhausted budget = value.source) ∧
        (budget < value.calls →
          (∀ exhausted, generateWithin exhausted budget tree .silent =
            (.error exhausted, .silent)) ∧
          ∀ exhausted text, value.source = .ok text →
            value.sourceWithin exhausted budget = .error exhausted) := by
  constructor
  · intro exhausted budget hbudget
    exact Parser.parseWithin_eq exhausted (by simpa using hbudget) tokens log
  · intro tree htree
    obtain ⟨name, value, hreturns⟩ := Parser.returns_of_parse htree
    obtain ⟨hderives, hfits⟩ := Parser.derives_of_parse htree
    have hnesting : tree.nesting ≤ limit := by
      unfold Parser.Fits at hfits
      omega
    have hcalls := hreturns.calls_le hderives.keepsTiers
    refine ⟨name, value, hreturns, hnesting, by omega, ?_⟩
    intro budget
    refine ⟨?_, ?_, ?_, ?_⟩
    · intro henough exhausted
      exact (Parser.parseWithin_of_parse htree exhausted budget).1 henough
    · intro hfew exhausted
      exact (Parser.parseWithin_of_parse htree exhausted budget).2 hfew
    · intro henough
      refine ⟨fun exhausted other => generateWithin_eq hreturns exhausted henough other, ?_⟩
      exact fun exhausted => Node.sourceWithin_eq exhausted henough
    · intro hfew
      refine ⟨fun exhausted => generateWithin_exhausted hreturns exhausted hfew, ?_⟩
      exact fun exhausted text htext => Node.sourceWithin_exhausted exhausted htext hfew

-- One group is enough for two calls active in reading and six in the rest, and for no more.
theorem recursion_is_bounded_by_nesting_nestedProduct :
    (parse nestedProductTokens 1 .silent).1 = .ok nestedProduct ∧
      (∀ exhausted, Parser.parseWithin exhausted 2 nestedProductTokens 1 .silent =
        parse nestedProductTokens 1 .silent) ∧
      (∀ exhausted, Parser.parseWithin exhausted 1 nestedProductTokens 1 .silent =
        (.error exhausted, .silent)) ∧
      ∃ name value, nestedProduct.Returns name value ∧ value.calls = 6 ∧
        (∀ exhausted, generateWithin exhausted 6 nestedProduct .silent =
          generate nestedProduct .silent) ∧
        (∀ exhausted, generateWithin exhausted 5 nestedProduct .silent =
          (.error exhausted, .silent)) ∧
        ∀ exhausted, value.sourceWithin exhausted 6 = value.source := by
  have htree : (parse nestedProductTokens 1 .silent).1 = .ok nestedProduct := by decide +kernel
  obtain ⟨hreading, haccepted⟩ := recursion_is_bounded_by_nesting 1 nestedProductTokens .silent
  obtain ⟨name, value, hreturns, _, _, hbudget⟩ := haccepted nestedProduct htree
  have hcalls : value.calls = 6 := by
    obtain ⟨⟨_, _, _, hshape⟩, _⟩ := hreturns
    cases hshape
    decide
  obtain ⟨hgenerate, hsource⟩ := (hbudget 6).2.2.1 (by omega)
  obtain ⟨hfewer, _⟩ := (hbudget 5).2.2.2 (by omega)
  refine ⟨htree, fun exhausted => hreading exhausted 2 (by decide), (hbudget 1).2.1 (by decide),
    name, value, hreturns, hcalls, ?_, hfewer, hsource⟩
  exact fun exhausted => hgenerate exhausted .silent

end TinyC
