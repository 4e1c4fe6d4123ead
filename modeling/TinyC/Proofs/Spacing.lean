import TinyC.Proofs.Code.Grouping
import TinyC.Proofs.Compile
import TinyC.Proofs.Tree.Unplaced

namespace TinyC

namespace Node

-- Programs that differ in places only have the same code.
theorem Returns.functionCode_eq {first second value other : Node}
    {name otherName : Option String} (hfirst : first.Returns name value)
    (hsecond : second.Returns otherName other) (h : first.unplaced = second.unplaced) :
    functionCode name value = functionCode otherName other := by
  obtain ⟨⟨_, _, _, rfl⟩, _⟩ := hfirst
  obtain ⟨⟨_, _, _, rfl⟩, _⟩ := hsecond
  simp only [unplaced, program.injEq, function.injEq, ret.injEq, and_true] at h
  obtain ⟨rfl, hvalue⟩ := h
  rw [functionCode, functionCode, ← code_unplaced value, hvalue, code_unplaced]

end Node

variable {first second : String} {tokens found : List Token} {log other : Log}

-- Texts that are read as one tree, but for places, are compiled to one text.
theorem compile_of_unplaced_tree {tree last : Node}
    (hfirst : (parseSource first Parser.defaultLimit log).1 = .ok tree)
    (hsecond : (parseSource second Parser.defaultLimit other).1 = .ok last)
    (h : tree.unplaced = last.unplaced) (target : Target) :
    ∃ text, (compile first target.name log).1 = .ok text ∧
      (compile second target.name other).1 = .ok text := by
  obtain ⟨name, value, hreturns⟩ := (grammarShaped_of_parseSource hfirst).exists_returns
  obtain ⟨lastName, lastValue, hlastReturns⟩ :=
    (grammarShaped_of_parseSource hsecond).exists_returns
  obtain ⟨text, htext, hcompile⟩ := compile_of_returns hfirst hreturns target
  obtain ⟨lastText, hlastText, hlastCompile⟩ := compile_of_returns hsecond hlastReturns target
  rw [hreturns.functionCode_eq hlastReturns h, hlastText] at htext
  cases htext
  exact ⟨text, hcompile, hlastCompile⟩

-- Texts whose tokens differ in places only are compiled to one text, or neither is compiled.
theorem compile_of_unplaced_eq (hfirst : (tokenize first log).1 = .ok tokens)
    (hsecond : (tokenize second other).1 = .ok found)
    (h : tokens.map Token.unplaced = found.map Token.unplaced) (target : Target) (text : String) :
    (compile first target.name log).1 = .ok text →
      (compile second target.name other).1 = .ok text := by
  intro hcompile
  obtain ⟨tree, hread⟩ := exists_tree_of_compile hcompile
  obtain ⟨spelled, hspelled, htree⟩ := parseSource_eq_ok_iff.mp hread
  obtain rfl : tokens = spelled := by
    rw [hfirst] at hspelled
    exact Except.ok.inj hspelled
  have hparse := parse_of_unplaced_eq h Parser.defaultLimit (tokenize first log).2
    (tokenize second other).2
  rw [htree] at hparse
  cases hlast : (parse found Parser.defaultLimit (tokenize second other).2).1 with
  | error error =>
    rw [hlast] at hparse
    cases hparse
  | ok last =>
    rw [hlast] at hparse
    have hlastRead := parseSource_eq_ok_iff.mpr ⟨found, hsecond, hlast⟩
    obtain ⟨same, hsame, hlastCompile⟩ :=
      compile_of_unplaced_tree hread hlastRead (Except.ok.inj hparse) target
    rw [hcompile] at hsame
    cases hsame
    exact hlastCompile

-- Texts of one normal form are both beyond the alphabet, or have the same tokens. Then the
-- same tree is read from them, or the same fault is found, and they have the same assembly text.
-- Neither how line ends are written nor how long a run of blanks is changes the normal form.
theorem spacing_is_irrelevant :
    (∀ first second : String,
      Text.normalForm first.toList = Text.normalForm second.toList → ∀ log other : Log,
        (((∃ error, (tokenize first log).1 = .error error) ∧
            ∃ error, (tokenize second other).1 = .error error) ∨
          ∃ tokens found, (tokenize first log).1 = .ok tokens ∧
            (tokenize second other).1 = .ok found ∧
            tokens.map Token.unplaced = found.map Token.unplaced ∧
            ∀ limit, unplacedResult (parse tokens limit log).1 =
              unplacedResult (parse found limit other).1) ∧
        ∀ (target : Target) (text : String), (compile first target.name log).1 = .ok text ↔
          (compile second target.name other).1 = .ok text) ∧
    ∀ text, Text.normalForm (Text.unifyNewlines text) = Text.normalForm text := by
  refine ⟨?_, fun text => Text.spaced_unifyNewlines text⟩
  intro first second h log other
  rcases Lexer.tokenize_of_normalForm_eq h log other with
    ⟨⟨error, herror⟩, last, hlast⟩ | ⟨tokens, found, htokens, hfound, hsame⟩
  · refine ⟨.inl ⟨⟨error, herror⟩, last, hlast⟩, ?_⟩
    intro target text
    have hfirst : (compile first target.name log).1 = _ :=
      compile_of_parseSource_error (parseSource_of_tokenize_error herror _)
    have hsecond : (compile second target.name other).1 = _ :=
      compile_of_parseSource_error (parseSource_of_tokenize_error hlast _)
    rw [hfirst, hsecond]
    exact ⟨nofun, nofun⟩
  · refine ⟨.inr ⟨tokens, found, htokens, hfound, hsame, ?_⟩, ?_⟩
    · intro limit
      exact parse_of_unplaced_eq hsame limit log other
    · intro target text
      exact ⟨compile_of_unplaced_eq htokens hfound hsame target text,
        compile_of_unplaced_eq hfound htokens hsame.symm target text⟩

-- A text on one line and one that is spread over lines with various ends.
theorem spacing_is_irrelevant_lines :
    Text.normalForm "int f(){return 1-2;}".toList =
        Text.normalForm "\tint\r\nf ( )\r { return 1 - 2 ; }\n".toList ∧
      ∀ (target : Target) (text : String),
        (compile "int f(){return 1-2;}" target.name .silent).1 = .ok text ↔
          (compile "\tint\r\nf ( )\r { return 1 - 2 ; }\n" target.name (.recording [])).1 =
            .ok text := by
  have hnormal : Text.normalForm "int f(){return 1-2;}".toList =
      Text.normalForm "\tint\r\nf ( )\r { return 1 - 2 ; }\n".toList := by decide +kernel
  exact ⟨hnormal, (spacing_is_irrelevant.1 _ _ hnormal .silent (.recording [])).2⟩

end TinyC
