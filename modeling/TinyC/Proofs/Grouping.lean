import TinyC.Proofs.Assembly.Decoding
import TinyC.Proofs.Code.Grouping
import TinyC.Proofs.Compile

namespace TinyC

namespace Node

theorem Supported.isEncodable_code {node : Node} (h : node.Supported)
    (hconstants : node.HasWritableConstants) :
    ∀ instruction ∈ node.code, instruction.IsEncodable := by
  rw [← emitted_of_supported h]
  exact hconstants.isEncodable_emitted

theorem isEncodable_functionHead {name : String} (h : IsLetters name) :
    ∀ instruction ∈ functionHead (some name), instruction.IsEncodable := by
  simp [functionHead, Instruction.IsEncodable, h]

-- The code of what is read can be told from its text.
theorem GrammarShaped.exists_isEncodable {tree : Node} (h : tree.GrammarShaped) :
    ∃ name value, tree.Returns name value ∧
      ∀ instruction ∈ functionCode name value, instruction.IsEncodable := by
  obtain ⟨⟨name, value, bodyPlace, mainPlace, place, rfl, hname, hvalue⟩, _⟩ := h
  have hletters : IsLetters name := ⟨fun hnil => hname.nonempty (by simp [hnil]), hname.letters⟩
  refine ⟨some name, value, ⟨⟨bodyPlace, mainPlace, place, rfl⟩, hvalue.supported⟩, ?_⟩
  intro instruction hmem
  simp only [functionCode, List.mem_append, List.mem_singleton] at hmem
  rcases hmem with (hmem | hmem) | rfl
  · exact isEncodable_functionHead hletters instruction hmem
  · exact hvalue.supported.isEncodable_code hvalue.hasNarrowConstants.hasWritableConstants
      instruction hmem
  · trivial

end Node

-- Code tells the program that it is generated for, but for groups and places, which it takes no
-- notice of. So the texts that two sources are compiled to are equal just if the trees that are
-- read from the sources are, with each group replaced by what it encloses.
theorem code_identifies_ungrouped_program :
    (∀ {first second : Node} {log other : Log} {code found : List Instruction},
      (generate first log).1 = .ok code → (generate second other).1 = .ok found →
      ∃ name value otherName otherValue, first.Returns name value ∧
        second.Returns otherName otherValue ∧
        (code = found ↔ name = otherName ∧ value.ungrouped.same otherValue.ungrouped)) ∧
    ∀ {source last : String} {log other : Log} {tree found : Node},
      (parseSource source Parser.defaultLimit log).1 = .ok tree →
      (parseSource last Parser.defaultLimit other).1 = .ok found →
      ∀ target : Target, ∃ text lastText,
        (compile source target.name log).1 = .ok text ∧
        (compile last target.name other).1 = .ok lastText ∧
        (text = lastText ↔ tree.ungrouped.same found.ungrouped) := by
  constructor
  · intro first second log other code found hcode hfound
    obtain ⟨name, value, hfirst, rfl⟩ := returns_of_generate hcode
    obtain ⟨otherName, otherValue, hsecond, rfl⟩ := returns_of_generate hfound
    exact ⟨name, value, otherName, otherValue, hfirst, hsecond,
      hfirst.functionCode_eq_iff_same hsecond⟩
  · intro source last log other tree found htree hfound target
    obtain ⟨name, value, hreturns, hencodable⟩ :=
      (grammarShaped_of_parseSource htree).exists_isEncodable
    obtain ⟨lastName, lastValue, hlast, hlastEncodable⟩ :=
      (grammarShaped_of_parseSource hfound).exists_isEncodable
    obtain ⟨text, htext, hcompile⟩ := compile_of_returns htree hreturns target
    obtain ⟨lastText, hlastText, hlastCompile⟩ := compile_of_returns hfound hlast target
    refine ⟨text, lastText, hcompile, hlastCompile, ?_⟩
    rw [hreturns.same_ungrouped_iff hlast, ← hreturns.functionCode_eq_iff_same hlast]
    constructor
    · rintro rfl
      exact eq_of_render_eq hencodable hlastEncodable (htext.trans hlastText.symm)
    · intro hcode
      rw [hcode, hlastText] at htext
      exact (Except.ok.inj htext).symm

section Difference

def difference (left right : Node) (column : Nat) : Node :=
  .binary .additive left "-" right ⟨1, column⟩

-- The function `f` on one line, with an expression after its return.
def returningOnLine (value : Node) : Node :=
  .program (.function (some "f") (.ret value ⟨1, 9⟩) ⟨1, 1⟩) ⟨1, 1⟩

def leftGrouped : Node :=
  returningOnLine (difference
    (.group (difference (.constant 1 ⟨1, 17⟩) (.constant 2 ⟨1, 19⟩) 18) ⟨1, 16⟩)
    (.constant 3 ⟨1, 22⟩) 21)

def neverGrouped : Node :=
  returningOnLine (difference (difference (.constant 1 ⟨1, 16⟩) (.constant 2 ⟨1, 18⟩) 17)
    (.constant 3 ⟨1, 20⟩) 19)

def rightGrouped : Node :=
  returningOnLine (difference (.constant 1 ⟨1, 16⟩)
    (.group (difference (.constant 2 ⟨1, 19⟩) (.constant 3 ⟨1, 21⟩) 20) ⟨1, 18⟩) 17)

-- Parentheses about the first difference are redundant, and about the second they are not.
theorem code_identifies_ungrouped_program_difference :
    (parseSource "int f(){return (1-2)-3;}" Parser.defaultLimit .silent).1 = .ok leftGrouped ∧
      (parseSource "int f(){return 1-2-3;}" Parser.defaultLimit .silent).1 = .ok neverGrouped ∧
      (parseSource "int f(){return 1-(2-3);}" Parser.defaultLimit .silent).1 = .ok rightGrouped ∧
      (generate leftGrouped .silent).1 = (generate neverGrouped .silent).1 ∧
      ∀ target : Target, ∃ text other,
        (compile "int f(){return (1-2)-3;}" target.name .silent).1 = .ok text ∧
        (compile "int f(){return 1-2-3;}" target.name .silent).1 = .ok text ∧
        (compile "int f(){return 1-(2-3);}" target.name .silent).1 = .ok other ∧
        text ≠ other := by
  have hleft : (parseSource "int f(){return (1-2)-3;}" Parser.defaultLimit .silent).1 =
      .ok leftGrouped := by decide +kernel
  have hnever : (parseSource "int f(){return 1-2-3;}" Parser.defaultLimit .silent).1 =
      .ok neverGrouped := by decide +kernel
  have hright : (parseSource "int f(){return 1-(2-3);}" Parser.defaultLimit .silent).1 =
      .ok rightGrouped := by decide +kernel
  refine ⟨hleft, hnever, hright, ?_, ?_⟩
  · obtain ⟨_, _, hleftReturns⟩ := (grammarShaped_of_parseSource hleft).exists_returns
    obtain ⟨_, _, hneverReturns⟩ := (grammarShaped_of_parseSource hnever).exists_returns
    have hleftCode := congrArg Prod.fst (generate_of_returns hleftReturns)
    have hneverCode := congrArg Prod.fst (generate_of_returns hneverReturns)
    obtain ⟨name, value, otherName, otherValue, hfirst, hsecond, hiff⟩ :=
      code_identifies_ungrouped_program.1 hleftCode hneverCode
    have hsame : leftGrouped.ungrouped.same neverGrouped.ungrouped := by decide
    rw [hleftCode, hneverCode, hiff.mpr ((hfirst.same_ungrouped_iff hsecond).mp hsame)]
  · intro target
    obtain ⟨text, found, htext, hfound, hiff⟩ :=
      code_identifies_ungrouped_program.2 hleft hnever target
    obtain ⟨_, other, hother, hlast, hdiffer⟩ :=
      code_identifies_ungrouped_program.2 hleft hright target
    obtain rfl : text = found := hiff.mpr (by decide)
    rw [htext] at hother
    cases hother
    refine ⟨text, other, htext, hfound, hlast, ?_⟩
    intro heq
    have hsame : ¬ leftGrouped.ungrouped.same rightGrouped.ungrouped := by decide
    exact hsame (hdiffer.mp heq)

end Difference

end TinyC
