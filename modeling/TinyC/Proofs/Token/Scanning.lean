import TinyC.Proofs.Token.Lexeme
import TinyC.Proofs.Token.Literal
import TinyC.Token.Lexer

namespace TinyC

namespace Token

-- The line that reports a token.
def line (token : Token) : String := "lex: " ++ token.shown

theorem ofLexeme_terminal (terminal : Terminal) (lexeme : List Char) (place : Position) :
    (ofLexeme terminal lexeme place).terminal = terminal := by
  unfold ofLexeme
  split <;> rfl

-- The lexeme of a literal is made of digits, behind a mark if they are hexadecimal.
theorem isSpelled_ofLexeme {terminal : Terminal} {text lexeme : List Char}
    (h : terminal.lexeme? text = some lexeme) (place : Position) :
    (ofLexeme terminal lexeme place).IsSpelled := by
  intro base hbase
  rw [ofLexeme_terminal] at hbase
  cases terminal <;> cases hbase
  case decimal =>
    exact ⟨lexeme, (Lexeme.run?_eq_some h).2, Lexeme.isPart_of_run? h, rfl, rfl⟩
  case hexadecimal =>
    obtain ⟨rest, digits, rfl, hdigits, rfl⟩ := Terminal.exists_of_lexeme?_hexadecimal h
    exact ⟨digits, (Lexeme.run?_eq_some hdigits).2, Lexeme.isPart_of_run? hdigits, rfl, rfl⟩

end Token

namespace Lexer

open Text

-- The tokens at the front of a text that begins at a place, each with the blanks after it. What
-- is left begins at another place.
inductive Lexes : Position → List Char → List Token → Position → List Char → Prop
  | done (place : Position) (text : List Char) : Lexes place text [] place text
  | token {place last : Position} {text left lexeme : List Char} {terminal : Terminal}
      {tokens : List Token} :
      Terminal.first? text = some (terminal, lexeme) →
      Lexes ((place.advance lexeme).advance ((text.drop lexeme.length).takeWhile isBlank))
        ((text.drop lexeme.length).dropWhile isBlank) tokens last left →
      Lexes place text (.ofLexeme terminal lexeme place :: tokens) last left

theorem Lexes.cons {place last : Position} {lexeme rest left : List Char} {terminal : Terminal}
    {tokens : List Token} (hfirst : Terminal.first? (lexeme ++ rest) = some (terminal, lexeme))
    (hrest : Lexes ((place.advance lexeme).advance (rest.takeWhile isBlank)) (rest.dropWhile isBlank)
      tokens last left) :
    Lexes place (lexeme ++ rest) (.ofLexeme terminal lexeme place :: tokens) last left := by
  refine .token hfirst ?_
  rw [List.drop_left]
  exact hrest

theorem Lexes.append {place middle last : Position} {text rest left : List Char}
    {front back : List Token} (hfront : Lexes place text front middle rest)
    (hback : Lexes middle rest back last left) : Lexes place text (front ++ back) last left := by
  induction hfront with
  | done place text => exact hback
  | token hfirst _ ih => exact .token hfirst (ih hback)

theorem Lexes.isSpelled {place last : Position} {text left : List Char} {tokens : List Token}
    (h : Lexes place text tokens last left) : ∀ token ∈ tokens, token.IsSpelled := by
  induction h with
  | done place text => simp
  | @token place last text left lexeme terminal tokens hfirst _ ih =>
    intro token htoken
    rcases List.mem_cons.mp htoken with rfl | htoken
    · exact Token.isSpelled_ofLexeme (Terminal.lexeme?_of_first? hfirst) place
    · exact ih token htoken

-- An identifier with a parenthesis behind it is a name.
theorem Lexes.isName {place last : Position} {text left : List Char} {name paren : Token}
    {tokens : List Token} (h : Lexes place text (name :: paren :: tokens) last left)
    (hname : name.terminal = .identifier) (hparen : paren.terminal = .leftParen) :
    ∃ value, name.value = some value ∧ Terminal.IsName value.toList := by
  cases h with
  | @token _ _ _ _ lexeme _ _ hfirst hrest =>
    rw [Token.ofLexeme_terminal] at hname
    subst hname
    cases hrest with
    | token hsecond _ =>
      rw [Token.ofLexeme_terminal] at hparen
      subst hparen
      refine ⟨String.ofList lexeme, rfl, ?_⟩
      rw [String.toList_ofList]
      exact Terminal.isName_of_first? hfirst hsecond

-- Wherever it begins, the front of a text is cut into tokens of this kind, and the rest is left.
def LexesTo (text left : List Char) (kind : List Token → Prop) : Prop :=
  ∀ place, ∃ tokens last, Lexes place text tokens last left ∧ kind tokens

theorem LexesTo.mono {text left : List Char} {first second : List Token → Prop}
    (h : LexesTo text left first) (himp : ∀ tokens, first tokens → second tokens) :
    LexesTo text left second := by
  intro place
  obtain ⟨tokens, last, hlexes, hfirst⟩ := h place
  exact ⟨tokens, last, hlexes, himp tokens hfirst⟩

theorem LexesTo.append {text middle left : List Char} {first second : List Token → Prop}
    (hfirst : LexesTo text middle first) (hsecond : LexesTo middle left second) :
    LexesTo text left fun tokens =>
      ∃ front back, tokens = front ++ back ∧ first front ∧ second back := by
  intro place
  obtain ⟨front, between, hfront, hkind⟩ := hfirst place
  obtain ⟨back, last, hback, hother⟩ := hsecond between
  exact ⟨front ++ back, last, hfront.append hback, front, back, rfl, hkind, hother⟩

theorem lexesTo_of_first? {terminal : Terminal} {lexeme rest : List Char}
    (h : Terminal.first? (lexeme ++ rest) = some (terminal, lexeme)) :
    LexesTo (lexeme ++ rest) (rest.dropWhile isBlank) fun tokens =>
      ∃ place, tokens = [.ofLexeme terminal lexeme place] := by
  intro place
  exact ⟨_, _, .cons h (.done _ _), place, rfl⟩

theorem lexesTo_spelling {terminal : Terminal} {spelling rest : List Char}
    (h : terminal.spelling? = some spelling)
    (hrest : terminal.category = .keyword → Lexeme.endsWord rest) :
    LexesTo (spelling ++ rest) (rest.dropWhile isBlank) fun tokens =>
      ∃ place, tokens = [⟨terminal, none, place⟩] := by
  refine (lexesTo_of_first? (Terminal.first?_spelling h hrest)).mono ?_
  rintro tokens ⟨place, rfl⟩
  exact ⟨place, by simp only [Token.ofLexeme, h]⟩

-- What is no keyword may stand in front of anything.
theorem lexesTo_symbol {terminal : Terminal} {spelling : List Char}
    (h : terminal.spelling? = some spelling) (hcategory : terminal.category ≠ .keyword)
    (rest : List Char) :
    LexesTo (spelling ++ rest) (rest.dropWhile isBlank) fun tokens =>
      ∃ place, tokens = [⟨terminal, none, place⟩] :=
  lexesTo_spelling h fun hkeyword => absurd hkeyword hcategory

theorem lexesTo_name {name rest : List Char} (h : Terminal.IsName name)
    (hrest : Lexeme.endsWord rest) :
    LexesTo (name ++ rest) (rest.dropWhile isBlank) fun tokens =>
      ∃ place, tokens = [⟨.identifier, some (String.ofList name), place⟩] :=
  lexesTo_of_first? (Terminal.first?_name h hrest)

theorem lexesTo_digits {digits rest : List Char} (hne : digits ≠ [])
    (hdigits : ∀ c ∈ digits, c.isDigit) (hrest : Lexeme.endsWord rest) :
    LexesTo (digits ++ rest) (rest.dropWhile isBlank) fun tokens =>
      ∃ place, tokens = [⟨.decimal, some (String.ofList digits), place⟩] :=
  lexesTo_of_first? (Terminal.first?_digits hne hdigits hrest)

-- A scan whose tokens can all be shown stops where no terminal matches, and reports each of them.
theorem scan_of_lexes {isShown : Token → Bool} {place last : Position} {text left : List Char}
    {tokens : List Token} (h : Lexes place text tokens last left)
    (hend : Terminal.first? left = none) (hshown : ∀ token ∈ tokens, isShown token)
    (found : List Token) (log : Log) :
    scan isShown found text place log =
      ⟨found.reverse ++ tokens, false, left, last, log.after (tokens.map Token.line)⟩ := by
  induction h generalizing found log with
  | done place text =>
    rw [scan]
    split
    · simp
    · next heq => rw [hend] at heq; cases heq
  | @token place last text left lexeme terminal tokens hfirst _ ih =>
    have hscan := ih hend (fun token htoken => hshown token (by simp [htoken]))
      (.ofLexeme terminal lexeme place :: found)
      (log.note fun _ => s!"lex: {(Token.ofLexeme terminal lexeme place).shown}")
    rw [scan]
    split
    · next heq => rw [hfirst] at heq; cases heq
    · next heq =>
      rw [hfirst] at heq
      cases heq
      simp only [hshown _ List.mem_cons_self, if_true]
      rw [hscan, Log.note_eq_after, Log.after_after, List.reverse_cons, List.append_assoc]
      rfl

-- A token leaves less text behind it, whether or not blanks follow it.
theorem length_left_lt {text lexeme : List Char} {terminal : Terminal}
    (h : Terminal.first? text = some (terminal, lexeme)) :
    ((text.drop lexeme.length).dropWhile isBlank).length < text.length := by
  have hlexeme : 0 < lexeme.length := List.length_pos_iff.mpr (Terminal.first?_ne_nil h)
  have htext : 0 < text.length := by
    apply List.length_pos_iff.mpr
    rintro rfl
    simp at h
  have hdrop := (List.dropWhile_sublist isBlank (l := text.drop lexeme.length)).length_le
  rw [List.length_drop] at hdrop
  omega

-- Every text has tokens at its front, up to where no terminal matches.
theorem exists_lexes (text : List Char) (place : Position) :
    ∃ tokens last left, Lexes place text tokens last left ∧ Terminal.first? left = none := by
  induction hlength : text.length using Nat.strongRecOn generalizing text place with
  | ind length ih =>
    cases hfirst : Terminal.first? text with
    | none => exact ⟨[], place, text, .done place text, hfirst⟩
    | some found =>
      obtain ⟨terminal, lexeme⟩ := found
      have hshorter := length_left_lt hfirst
      rw [hlength] at hshorter
      obtain ⟨tokens, last, left, hlexes, hend⟩ := ih _ hshorter
        ((text.drop lexeme.length).dropWhile isBlank)
        ((place.advance lexeme).advance ((text.drop lexeme.length).takeWhile isBlank)) rfl
      exact ⟨_, last, left, .token hfirst hlexes, hend⟩

-- A scan that is not cut has found the tokens up to where no terminal matches.
theorem scan_lexes (isShown : Token → Bool) (found : List Token) (text : List Char)
    (place : Position) (log : Log) {result : Scan} (h : scan isShown found text place log = result)
    (hcut : result.isCut = false) :
    ∃ tokens, result.found = found.reverse ++ tokens ∧
      Lexes place text tokens result.place result.left := by
  induction hlength : text.length using Nat.strongRecOn generalizing found text place log with
  | ind length ih =>
    rw [scan] at h
    split at h
    · next hfirst =>
      subst h
      exact ⟨[], by simp, .done place text⟩
    · next terminal lexeme hfirst =>
      have hshorter := length_left_lt hfirst
      rw [hlength] at hshorter
      dsimp only at h
      split at h
      · obtain ⟨tokens, hfound, hlexes⟩ := ih _ hshorter _ _ _ _ h rfl
        exact ⟨_ :: tokens, by simp [hfound], .token hfirst hlexes⟩
      · subst h
        cases hcut

-- The tokens of a text are reported, and are its result if they reach its end.
theorem tokenize_of_lexes {source : String} {tokens : List Token} {last : Position}
    {left : List Char}
    (hlexes : Lexes (Position.start.advance (source.toList.takeWhile isBlank))
      (source.toList.dropWhile isBlank) tokens last left)
    (hend : Terminal.first? left = none) (log : Log) :
    TinyC.tokenize source log =
      (if left.isEmpty then .ok tokens else .error ⟨left, last⟩,
        log.after (tokens.map Token.line)) := by
  have hshown : ∀ token ∈ tokens, (fun _ : Token => true) token := fun _ _ => rfl
  have hscan := scan_of_lexes hlexes hend hshown [] log
  simp only [TinyC.tokenize, tokenize, run, ahead, countedBlanks, ofSource, Int.toNat_zero,
    List.drop_zero, Int.lt_irrefl, if_false, hscan, Scan.result, List.reverse_nil,
    List.nil_append]

-- The tokens of a text are those that reach its end.
theorem tokenize_eq_ok_iff (source : String) (log : Log) (tokens : List Token) :
    (TinyC.tokenize source log).1 = .ok tokens ↔
      ∃ last, Lexes (Position.start.advance (source.toList.takeWhile isBlank))
        (source.toList.dropWhile isBlank) tokens last [] := by
  constructor
  · intro h
    obtain ⟨found, last, left, hlexes, hend⟩ := exists_lexes (source.toList.dropWhile isBlank)
      (Position.start.advance (source.toList.takeWhile isBlank))
    rw [tokenize_of_lexes hlexes hend] at h
    cases left with
    | nil =>
      cases h
      exact ⟨last, hlexes⟩
    | cons c rest => cases h
  · rintro ⟨last, hlexes⟩
    rw [tokenize_of_lexes hlexes Terminal.first?_nil]
    rfl

end Lexer

end TinyC
