import Mathlib.Data.List.Infix
import Mathlib.Data.List.MinMax
import TinyC.Proofs.Token.Cursor

namespace TinyC

open Text

namespace Terminal

open Lexeme

theorem length_of_symbol {terminal : Terminal} {text lexeme : List Char}
    (hsymbol : terminal.initial = .symbol) (h : terminal.lexeme? text = some lexeme) :
    lexeme.length = 1 := by
  cases terminal <;> cases hsymbol <;> rw [lexeme?_eq_spelling rfl h] <;> rfl

-- Letters do not go on behind a text that ends a word.
theorem length_le_of_letters {front rest letters : List Char} (h : letters <+: front ++ rest)
    (hletters : ∀ c ∈ letters, c.isAlpha) (hends : endsWord rest) :
    letters.length ≤ front.length := by
  rcases List.prefix_or_prefix_of_prefix h (List.prefix_append front rest) with
    hshort | ⟨more, rfl⟩
  · exact hshort.length_le
  · cases more with
    | nil => simp
    | cons c others =>
      obtain ⟨left, rfl⟩ := (List.prefix_append_right_inj front).mp h
      have hword := isWord_of_endsWord hends c rfl
      rw [isWord_of_isAlpha (hletters c (by simp))] at hword
      cases hword

theorem letters_of_lexeme? {terminal : Terminal} {text lexeme : List Char}
    (hletter : terminal.initial = .letter) (h : terminal.lexeme? text = some lexeme) :
    ∀ c ∈ lexeme, c.isAlpha := by
  cases terminal <;> cases hletter
  case identifier => exact isPart_of_run? h
  all_goals
    obtain ⟨_, _, _, _, hletters⟩ := exists_of_lexeme?_keyword rfl h
    exact hletters

-- What is found first is as long as anything that can be read at its place.
theorem length_le_of_first? {first other : Terminal} {text lexeme word : List Char}
    (h : first? text = some (first, lexeme)) (hother : other.lexeme? text = some word) :
    word.length ≤ lexeme.length := by
  have hlexeme := lexeme?_of_first? h
  have hinitial := initial_eq hother hlexeme
  by_cases hsame : other = first
  · subst hsame
    rw [hlexeme] at hother
    cases hother
    exact Nat.le_refl _
  cases first with
  | intKeyword | returnKeyword =>
    obtain ⟨rest, rfl, _, hends, _⟩ := exists_of_lexeme?_keyword rfl hlexeme
    exact length_le_of_letters (lexeme?_significant hother).1 (letters_of_lexeme? hinitial hother)
      hends
  | hexadecimal =>
    -- The other is the zero in front of the `x`.
    obtain ⟨rest, digits, rfl, _, rfl⟩ := exists_of_lexeme?_hexadecimal hlexeme
    obtain rfl : other = decimal := by cases other <;> cases hinitial <;> trivial
    cases hother
    exact Nat.le_add_left 1 _
  | decimal =>
    obtain rfl : other = hexadecimal := by cases other <;> cases hinitial <;> trivial
    rw [first?_of_hexadecimal hother] at h
    cases h
  | identifier =>
    have hkeyword : other.category = .keyword := by cases other <;> cases hinitial <;> trivial
    obtain ⟨rest, rfl, hspelling, hends, _⟩ := exists_of_lexeme?_keyword hkeyword hother
    rw [first?_spelling hspelling fun _ => hends] at h
    cases h
    exact absurd rfl hsame
  | _ => rw [length_of_symbol hinitial hother, length_of_symbol rfl hlexeme]

-- Whether all of a text is one lexeme of the shape that the terminal has.
def isShape : Terminal → List Char → Bool
  | hexadecimal, lexeme => lexeme.take 2 == ['0', 'x'] && isRun isHexDigit (lexeme.drop 2)
  | decimal, lexeme => isRun Char.isDigit lexeme
  | identifier, lexeme => isRun Char.isAlpha lexeme
  | terminal, lexeme => terminal.spelling? == some lexeme
where
  isRun (isPart : Char → Bool) (run : List Char) : Bool := !run.isEmpty && run.all isPart

-- Whether the front of a text may be read as the terminal: it is of that shape, and a keyword is
-- followed by the end of the text or by what is no part of a word.
def isMatch (terminal : Terminal) (text lexeme : List Char) : Bool :=
  terminal.isShape lexeme &&
    (terminal.category != .keyword || endsWord (text.drop lexeme.length))

-- The longest front of a text that may be read as the terminal.
def longestLexeme? (terminal : Terminal) (text : List Char) : Option (List Char) :=
  (text.inits.filter (terminal.isMatch text)).argmax List.length

-- The terminal that may be read from the longest front of a text, and of several that may be
-- read from that front the first in order.
def longest? (text : List Char) : Option (Terminal × List Char) :=
  (all.filterMap fun terminal => (terminal.longestLexeme? text).map fun lexeme =>
    (terminal, lexeme)).argmax fun found => found.2.length

theorem isRun_iff {isPart : Char → Bool} {run : List Char} :
    isShape.isRun isPart run ↔ run ≠ [] ∧ ∀ c ∈ run, isPart c := by
  simp [isShape.isRun]

theorem isShape_spelling {terminal : Terminal} {spelling lexeme : List Char}
    (h : terminal.spelling? = some spelling) : terminal.isShape lexeme ↔ lexeme = spelling := by
  have hshape : terminal.isShape lexeme = (terminal.spelling? == some lexeme) := by
    cases terminal <;> cases h <;> rfl
  rw [hshape, h, beq_iff_eq, Option.some.injEq, eq_comm]

theorem isRun_of_run? {isPart : Char → Bool} {text run : List Char}
    (h : run? isPart text = some run) : isShape.isRun isPart run := by
  exact isRun_iff.mpr ⟨(run?_eq_some h).2, isPart_of_run? h⟩

-- A run at the front of a text is part of the run that is read there.
theorem run?_of_isRun {isPart : Char → Bool} {run : List Char} (h : isShape.isRun isPart run)
    (rest : List Char) :
    ∃ longer, run? isPart (run ++ rest) = some longer ∧ run.length ≤ longer.length := by
  obtain ⟨hne, hpart⟩ := isRun_iff.mp h
  obtain ⟨c, more, rfl⟩ := List.exists_cons_of_ne_nil hne
  refine ⟨c :: more ++ rest.takeWhile isPart, ?_, by simp⟩
  rw [run?, List.takeWhile_append_of_pos hpart]
  rfl

theorem isMatch_of_lexeme? {terminal : Terminal} {text lexeme : List Char}
    (h : terminal.lexeme? text = some lexeme) : lexeme <+: text ∧ terminal.isMatch text lexeme := by
  refine ⟨(lexeme?_significant h).1, ?_⟩
  cases terminal with
  | hexadecimal =>
    obtain ⟨rest, digits, rfl, hdigits, rfl⟩ := exists_of_lexeme?_hexadecimal h
    have hrun := isRun_of_run? hdigits
    simp [isMatch, isShape, category, hrun]
  | decimal => simp [isMatch, isShape, category, isRun_of_run? h]
  | identifier => simp [isMatch, isShape, category, isRun_of_run? h]
  | intKeyword | returnKeyword =>
    obtain ⟨rest, rfl, hspelling, hends, _⟩ := exists_of_lexeme?_keyword rfl h
    rw [isMatch, (isShape_spelling hspelling).mpr rfl, List.drop_left, hends, Bool.or_true]
    rfl
  | _ =>
    obtain rfl := lexeme?_eq_spelling rfl h
    rfl

theorem lexeme?_of_isMatch {terminal : Terminal} {lexeme rest : List Char}
    (h : terminal.isMatch (lexeme ++ rest) lexeme) :
    ∃ longer, terminal.lexeme? (lexeme ++ rest) = some longer ∧ lexeme.length ≤ longer.length := by
  simp only [isMatch, List.drop_left, Bool.and_eq_true] at h
  obtain ⟨hshape, hends⟩ := h
  cases terminal with
  | hexadecimal =>
    simp only [isShape, Bool.and_eq_true, beq_iff_eq] at hshape
    obtain ⟨digits, rfl⟩ : ∃ digits, lexeme = '0' :: 'x' :: digits :=
      ⟨lexeme.drop 2, by rw [← List.take_append_drop 2 lexeme, hshape.1]; rfl⟩
    obtain ⟨longer, hlonger, hle⟩ := run?_of_isRun hshape.2 rest
    refine ⟨'0' :: 'x' :: longer, ?_, ?_⟩
    · simpa [lexeme?, spelling?] using hlonger
    · simpa using hle
  | decimal => exact run?_of_isRun hshape rest
  | identifier => exact run?_of_isRun hshape rest
  | _ =>
    obtain rfl := (isShape_spelling rfl).mp hshape
    exact ⟨_, by simp_all [lexeme?, spelling?], Nat.le_refl _⟩

-- What is read as a terminal is the longest front of its shape.
theorem longestLexeme?_eq (terminal : Terminal) (text : List Char) :
    terminal.longestLexeme? text = terminal.lexeme? text := by
  have hmatch : ∀ word ∈ text.inits.filter (terminal.isMatch text),
      word <+: text ∧ ∃ longer, terminal.lexeme? text = some longer ∧
        word.length ≤ longer.length := by
    intro word hword
    obtain ⟨hfront, hmatch⟩ := List.mem_filter.mp hword
    obtain ⟨rest, rfl⟩ := (List.mem_inits _ _).mp hfront
    exact ⟨List.prefix_append _ _, lexeme?_of_isMatch hmatch⟩
  cases h : terminal.lexeme? text with
  | none =>
    refine List.argmax_eq_none.mpr (List.eq_nil_iff_forall_not_mem.mpr ?_)
    intro word hword
    obtain ⟨_, longer, hlonger, _⟩ := hmatch word hword
    rw [h] at hlonger
    cases hlonger
  | some lexeme =>
    obtain ⟨hfront, hlexeme⟩ := isMatch_of_lexeme? h
    have hle : ∀ word ∈ text.inits.filter (terminal.isMatch text),
        word.length ≤ lexeme.length := by
      intro word hword
      obtain ⟨_, longer, hlonger, hle⟩ := hmatch word hword
      rw [h] at hlonger
      cases hlonger
      exact hle
    refine List.mem_argmax_iff.mpr ⟨?_, hle, ?_⟩
    · exact List.mem_filter.mpr ⟨(List.mem_inits _ _).mpr hfront, hlexeme⟩
    · -- There is one front of each length.
      intro word hword hlength
      have hsame := List.prefix_of_prefix_length_le hfront (hmatch word hword).1 hlength
      rw [hsame.eq_of_length (Nat.le_antisymm hlength (hle word hword))]

-- Of elements that are no larger than the first, the first is the largest.
theorem argmax_cons_of_le {α : Type} {size : α → ℕ} {first : α} {others : List α}
    (h : ∀ other ∈ others, size other ≤ size first) :
    (first :: others).argmax size = some first := by
  rw [List.argmax_cons]
  cases hbest : others.argmax size with
  | none => rfl
  | some best => exact if_neg (Nat.not_lt.mpr (h best (List.argmax_mem hbest)))

-- What is found first is what is longest.
theorem longest?_eq_first? (text : List Char) : longest? text = first? text := by
  have hhead := List.head?_filterMap (l := all) (f := fun terminal : Terminal =>
    (terminal.lexeme? text).map fun lexeme => (terminal, lexeme))
  simp only [longest?, longestLexeme?_eq]
  rw [first?, ← hhead]
  cases hfound : all.filterMap fun terminal =>
      (terminal.lexeme? text).map fun lexeme => (terminal, lexeme) with
  | nil => rfl
  | cons found others =>
    rw [hfound, List.head?_cons] at hhead
    refine argmax_cons_of_le fun best hbest => ?_
    have hmem := List.mem_cons_of_mem found hbest
    rw [← hfound] at hmem
    obtain ⟨other, _, hother⟩ := List.mem_filterMap.mp hmem
    obtain ⟨word, hword, rfl⟩ := Option.map_eq_some_iff.mp hother
    exact length_le_of_first? hhead.symm hword

end Terminal

namespace Lexer

theorem longest?_ne_nil {text lexeme : List Char} {terminal : Terminal}
    (h : Terminal.longest? text = some (terminal, lexeme)) :
    ((text.drop lexeme.length).dropWhile isBlank).length < text.length :=
  length_left_lt (Terminal.longest?_eq_first? text ▸ h)

-- Cuts a text into tokens by the longest match at every place, each with the blanks after it.
-- What no terminal matches is left. The text comes behind `before`.
def munch (before text : List Char) : List Token × LexError :=
  match _ : Terminal.longest? text with
  | none => ([], ⟨text, .behind before⟩)
  | some (terminal, lexeme) =>
    let after := text.drop lexeme.length
    let (tokens, left) :=
      munch (before ++ lexeme ++ after.takeWhile isBlank) (after.dropWhile isBlank)
    (.ofLexeme terminal lexeme (.behind before) :: tokens, left)
termination_by text.length
decreasing_by exact longest?_ne_nil ‹_›

-- The tokens of a whole text by the longest match.
def longestTokens (source : String) : Except LexError (List Token) :=
  let (tokens, left) := munch (source.toList.takeWhile isBlank) (source.toList.dropWhile isBlank)
  if left.remaining.isEmpty then .ok tokens else .error left

theorem munch_of_lexes {before text left : List Char} {tokens : List Token} {last : Position}
    (h : Lexes (.behind before) text tokens last left) (hend : Terminal.first? left = none) :
    munch before text = (tokens, ⟨left, last⟩) := by
  generalize hplace : Position.behind before = place at h
  induction h generalizing before with
  | done place text =>
    rw [munch]
    split
    · rw [hplace]
    · next heq => rw [Terminal.longest?_eq_first?, hend] at heq; cases heq
  | @token place last text left lexeme terminal tokens hfirst _ ih =>
    subst hplace
    rw [munch]
    split
    · next heq => rw [Terminal.longest?_eq_first?, hfirst] at heq; cases heq
    · next heq =>
      rw [Terminal.longest?_eq_first?, hfirst] at heq
      cases heq
      have hplace : Position.behind (before ++ lexeme ++ (text.drop lexeme.length).takeWhile isBlank) =
          ((Position.behind before).advance lexeme).advance
            ((text.drop lexeme.length).takeWhile isBlank) := by
        rw [Position.advance_behind, Position.advance_behind]
      simp only [ih hend hplace]

end Lexer

-- No character behind an integer goes on with it, and no letter follows an identifier.
def Token.IsMaximal (token : Token) (rest : List Char) : Prop :=
  (token.terminal.category = .integer →
    ∀ c ∈ rest.head?, token.terminal.isShape (token.text ++ [c]) = false) ∧
  (token.terminal = .identifier → ∀ c ∈ rest.head?, c.isAlpha = false)

-- A front of a text that goes on with a lexeme is not of its shape, unless it is a keyword.
theorem Terminal.isShape_append {terminal : Terminal} {lexeme rest : List Char}
    (h : terminal.lexeme? (lexeme ++ rest) = some lexeme) (hword : terminal.category ≠ .keyword)
    {c : Char} (hc : c ∈ rest.head?) : terminal.isShape (lexeme ++ [c]) = false := by
  cases hshape : terminal.isShape (lexeme ++ [c]) with
  | false => rfl
  | true =>
    obtain ⟨after, rfl⟩ := List.head?_eq_some_iff.mp (Option.mem_def.mp hc)
    have hmatch : terminal.isMatch (lexeme ++ [c] ++ after) (lexeme ++ [c]) := by
      simp [isMatch, hshape, hword]
    obtain ⟨longer, hlonger, hle⟩ := lexeme?_of_isMatch hmatch
    rw [List.append_assoc, List.singleton_append, h] at hlonger
    cases hlonger
    rw [List.length_append, List.length_singleton] at hle
    omega

theorem Token.isMaximal_of_first? {token : Token} {rest : List Char}
    (h : Terminal.first? (token.text ++ rest) = some (token.terminal, token.text)) :
    token.IsMaximal rest := by
  have hlexeme := Terminal.lexeme?_of_first? h
  refine ⟨?_, ?_⟩
  · intro hinteger c hc
    exact Terminal.isShape_append hlexeme (by rw [hinteger]; decide) hc
  · intro hidentifier c hc
    rw [hidentifier] at hlexeme
    have hshape := Terminal.isShape_append hlexeme (by decide) hc
    cases hletter : c.isAlpha with
    | false => rfl
    | true =>
      have hletters := Terminal.letters_of_lexeme? rfl hlexeme
      have hlonger : Terminal.isShape.isRun Char.isAlpha (token.text ++ [c]) := by
        refine Terminal.isRun_iff.mpr ⟨by simp, ?_⟩
        intro d hd
        rcases List.mem_append.mp hd with hd | hd
        · exact hletters d hd
        · rw [List.mem_singleton.mp hd]
          exact hletter
      rw [Terminal.isShape, hlonger] at hshape
      cases hshape

namespace Lexer

-- Taking the first terminal that matches cuts a text as taking the longest match does, with the
-- same fault where neither goes on. No number or identifier could have been longer.
theorem first_match_is_longest_match (source : String) (log : Log) :
    (TinyC.tokenize source log).1 = longestTokens source ∧
      ((ofSource source).tokenize log).2.1.held =
        (munch (source.toList.takeWhile isBlank) (source.toList.dropWhile isBlank)).1 ∧
      ∀ token ∈ ((ofSource source).tokenize log).2.1.held, ∃ front rest,
        source.toList = front ++ (token.text ++ rest) ∧ token.place = .behind front ∧
          token.IsMaximal rest := by
  have hexact := isExact_ofSource source
  have hcut : ((ofSource source).run (fun _ => true) log).1.isCut = false := isCut_scan _ _ _ _
  have hlexes := hexact.lexes_run (fun _ => true) log hcut
  have hrun := hexact.run (fun _ => true) log
  have hmunch : munch (source.toList.takeWhile isBlank) (source.toList.dropWhile isBlank) = _ :=
    munch_of_lexes hlexes (hrun.first?_ahead hcut)
  refine ⟨?_, ?_, ?_⟩
  · rw [longestTokens, hmunch]
    exact hrun.result_eq
  · rw [hmunch]
    rfl
  · intro token htoken
    obtain ⟨front, rest, hsource, hplace, hfirst⟩ := hlexes.stands htoken
    refine ⟨front, rest, ?_, hplace, Token.isMaximal_of_first? hfirst⟩
    rw [← hsource]
    exact List.takeWhile_append_dropWhile.symm

-- A keyword that a digit goes on is an identifier, and a zero that an `x` follows is a number of
-- its own where no hexadecimal digit comes next.
theorem first_match_is_longest_match_int2 :
    longestTokens "int2 0xg" = .ok [⟨.identifier, some "int", ⟨1, 1⟩⟩, ⟨.decimal, some "2", ⟨1, 4⟩⟩,
        ⟨.decimal, some "0", ⟨1, 6⟩⟩, ⟨.identifier, some "xg", ⟨1, 7⟩⟩] ∧
      (TinyC.tokenize "int2 0xg" .silent).1 = longestTokens "int2 0xg" ∧
      ⟨.decimal, some "0", ⟨1, 6⟩⟩ ∈ ((ofSource "int2 0xg").tokenize .silent).2.1.held ∧
      ∃ front rest, "int2 0xg".toList = front ++ (['0'] ++ rest) ∧ ⟨1, 6⟩ = Position.behind front ∧
        Token.IsMaximal ⟨.decimal, some "0", ⟨1, 6⟩⟩ rest := by
  have hmem : ⟨.decimal, some "0", ⟨1, 6⟩⟩ ∈ ((ofSource "int2 0xg").tokenize .silent).2.1.held := by
    decide +kernel
  obtain ⟨hsame, _, hmaximal⟩ := first_match_is_longest_match "int2 0xg" .silent
  have htokens : longestTokens "int2 0xg" = .ok [⟨.identifier, some "int", ⟨1, 1⟩⟩,
      ⟨.decimal, some "2", ⟨1, 4⟩⟩, ⟨.decimal, some "0", ⟨1, 6⟩⟩,
      ⟨.identifier, some "xg", ⟨1, 7⟩⟩] := by
    decide +kernel
  exact ⟨htokens, hsame, hmem, hmaximal _ hmem⟩

end Lexer

end TinyC
