import TinyC.Proofs.Token.Cursor
import TinyC.Proofs.Tree.RoundTrip

namespace TinyC

open Text

-- An identifier that has the text of a keyword goes on with a number: with what goes on a word,
-- but is no letter.
theorem Lexer.Lexes.integer_behind_keyword {before text : List Char} {word : Token}
    {rest : List Token} {last : Position} (h : Lexes (.behind before) text (word :: rest) last [])
    (hword : word.terminal = .identifier) {keyword : Terminal}
    (hkeyword : keyword.spelling? = some word.text) :
    ∃ next more after, rest = next :: more ∧
      (next.terminal = .decimal ∨ next.terminal = .hexadecimal) ∧
      text = word.text ++ (next.text ++ after) ∧ word.place = .behind before ∧
      next.place = .behind (before ++ word.text) := by
  obtain ⟨behind, rfl, htoken, hfirst, hrest⟩ := h.exists_rest
  have hne : keyword ≠ .identifier := by
    rintro rfl
    cases hkeyword
  rw [hword] at hfirst
  obtain ⟨c, others, hbehind, hc, hletter⟩ :=
    Terminal.exists_word_of_identifier hkeyword hne hfirst
  obtain rfl := List.append_cancel_left hbehind
  have hblank := isBlank_of_isWord hc
  simp only [List.dropWhile_cons, List.takeWhile_cons, hblank, Bool.false_eq_true, if_false,
    Position.advance_behind, List.append_nil] at hrest
  cases rest with
  | nil => cases hrest
  | cons next more =>
    obtain ⟨after, hafter, hnext, hsecond, _⟩ := hrest.exists_rest
    have hdigit : next.terminal.initial = .digit := by
      obtain ⟨_, _, ⟨⟩, hbegins⟩ := Terminal.lexeme?_begins (Terminal.lexeme?_of_first? hsecond)
      cases hinitial : next.terminal.initial with
      | symbol =>
        rw [hinitial] at hbegins
        rw [isWord_of_symbol (List.contains_iff_mem.mp hbegins)] at hc
        cases hc
      | letter =>
        rw [hinitial] at hbegins
        have hother : c.isAlpha := hbegins
        rw [hother] at hletter
        cases hletter
      | digit => rfl
    refine ⟨next, more, after, rfl, ?_, by rw [hafter], ?_, ?_⟩
    · generalize next.terminal = terminal at hdigit
      cases terminal <;> cases hdigit
      · exact .inr rfl
      · exact .inl rfl
    · rw [htoken, Token.place_ofLexeme]
    · rw [hnext, Token.place_ofLexeme]

-- An identifier may have the text of a keyword, but only if a number touches it. As the name of a
-- function is followed by a parenthesis, it is no keyword.
theorem keywords_name_no_function (source : String) (log : Log) :
    (∀ front word rest, (tokenize source log).1 = .ok (front ++ word :: rest) →
      word.terminal = .identifier → word.value = some "int" ∨ word.value = some "return" →
      ∃ next more before after, rest = next :: more ∧
        (next.terminal = .decimal ∨ next.terminal = .hexadecimal) ∧
        source.toList = before ++ (word.text ++ (next.text ++ after)) ∧
        word.place = .behind before ∧ next.place = .behind (before ++ word.text)) ∧
    ∀ limit tree, (parseSource source limit log).1 = .ok tree →
      ∃ name body mainPlace place,
        tree = .program (.function (some name) body mainPlace) place ∧ name ≠ "" ∧
          (∀ c ∈ name.toList, c.isAlpha) ∧ name ≠ "int" ∧ name ≠ "return" := by
  constructor
  · intro front word rest htokens hword hvalue
    obtain ⟨last, hlexes⟩ := (Lexer.tokenize_eq_ok_iff source log _).mp htokens
    obtain ⟨keyword, hkeyword⟩ : ∃ keyword : Terminal, keyword.spelling? = some word.text := by
      rcases hvalue with hvalue | hvalue
      · exact ⟨.intKeyword, by simp [Token.text, hword, Terminal.spelling?, hvalue]⟩
      · exact ⟨.returnKeyword, by simp [Token.text, hword, Terminal.spelling?, hvalue]⟩
    have hstart : Position.start.advance (source.toList.takeWhile isBlank) =
        .behind (source.toList.takeWhile isBlank) := Position.advance_behind [] _
    rw [hstart] at hlexes
    obtain ⟨middle, left, hfront, hback⟩ := hlexes.exists_split
    obtain ⟨passed, hpassed, rfl⟩ := hfront.exists_passed
    obtain ⟨next, more, after, rfl, hnext, rfl, hplace, hadjacent⟩ :=
      hback.integer_behind_keyword hword hkeyword
    refine ⟨next, more, source.toList.takeWhile isBlank ++ passed, after, rfl, hnext, ?_, hplace,
      hadjacent⟩
    rw [List.append_assoc, ← hpassed, List.takeWhile_append_dropWhile]
  · intro limit tree htree
    obtain ⟨name, value, bodyPlace, mainPlace, place, rfl, hname, _⟩ := shape_of_parseSource htree
    refine ⟨name, _, mainPlace, place, rfl, ?_, hname.letters, ?_, ?_⟩
    · rintro rfl
      exact hname.nonempty rfl
    · rintro rfl
      exact hname.notInt rfl
    · rintro rfl
      exact hname.notReturn rfl

-- A function whose name begins like a keyword.
def interTree : Node :=
  .program (.function (some "inter") (.ret (.constant 2 ⟨1, 20⟩) ⟨1, 13⟩) ⟨1, 1⟩) ⟨1, 1⟩

-- The text `int2` begins with an identifier, which names no function.
theorem keywords_name_no_function_int2 :
    (tokenize "int2" .silent).1 = .ok ([] ++ ⟨.identifier, some "int", ⟨1, 1⟩⟩ ::
        [⟨.decimal, some "2", ⟨1, 4⟩⟩]) ∧
      (∃ (next : Token) (more : List Token) (before after : List Char),
        [⟨.decimal, some "2", ⟨1, 4⟩⟩] = next :: more ∧
        (next.terminal = .decimal ∨ next.terminal = .hexadecimal) ∧
        "int2".toList = before ++ (['i', 'n', 't'] ++ (next.text ++ after)) ∧
        ⟨1, 1⟩ = Position.behind before ∧
        next.place = .behind (before ++ ['i', 'n', 't'])) ∧
      (parseSource "int inter(){return 2;}" 0 .silent).1 = .ok interTree ∧
      ∃ name body mainPlace place,
        interTree = .program (.function (some name) body mainPlace) place ∧ name ≠ "" ∧
          (∀ c ∈ name.toList, c.isAlpha) ∧ name ≠ "int" ∧ name ≠ "return" := by
  have htokens : (tokenize "int2" .silent).1 = .ok ([] ++ ⟨.identifier, some "int", ⟨1, 1⟩⟩ ::
      [⟨.decimal, some "2", ⟨1, 4⟩⟩]) := by
    decide +kernel
  have htree : (parseSource "int inter(){return 2;}" 0 .silent).1 = .ok interTree := by
    decide +kernel
  exact ⟨htokens, (keywords_name_no_function "int2" .silent).1 _ _ _ htokens rfl (.inl rfl), htree,
    (keywords_name_no_function _ .silent).2 0 interTree htree⟩

end TinyC
