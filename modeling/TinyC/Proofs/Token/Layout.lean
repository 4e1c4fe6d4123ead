import TinyC.Proofs.Token.Alphabet
import TinyC.Proofs.Token.Scanning

namespace TinyC

namespace Position

-- Where the line begins that the front of a text ends in: behind the last newline.
def lineStart (front : List Char) : Nat := front.length - front.reverse.idxOf '\n'

-- The place in a text behind its front, from the newlines there alone.
def behind (front : List Char) : Position :=
  ⟨1 + front.count '\n', front.length - lineStart front + 1⟩

theorem behind_concat (front : List Char) (c : Char) :
    behind (front ++ [c]) = (behind front).next c := by
  have hidx : front.reverse.idxOf '\n' ≤ front.length := by
    have hle := List.idxOf_le_length (a := '\n') (l := front.reverse)
    simpa using hle
  by_cases hc : c = '\n'
  · subst hc
    simp [behind, lineStart, next]
    omega
  · have hbehind : (c :: front.reverse).idxOf '\n' = front.reverse.idxOf '\n' + 1 := by
      rw [List.idxOf_cons, beq_eq_false_iff_ne.mpr hc]
      rfl
    have hcount : (front ++ [c]).count '\n' = front.count '\n' := by simp [hc]
    simp only [behind, lineStart, next, hc, if_false, hcount, List.reverse_append,
      List.reverse_singleton, List.singleton_append, hbehind, List.length_append,
      List.length_singleton, Position.mk.injEq, true_and]
    omega

-- Moving over a text character by character comes to the place behind it.
theorem advance_behind (front text : List Char) :
    (behind front).advance text = behind (front ++ text) := by
  induction text generalizing front with
  | nil => rw [List.append_nil]; rfl
  | cons c rest ih =>
    have hnext := ih (front ++ [c])
    rw [behind_concat, List.append_assoc] at hnext
    exact hnext

end Position

open Text

namespace Token

-- The text that a token stands for.
def text (token : Token) : List Char :=
  match token.terminal.spelling? with
  | some spelling => spelling
  | none => (token.value.getD "").toList

theorem text_ofLexeme {terminal : Terminal} {text lexeme : List Char}
    (h : terminal.lexeme? text = some lexeme) (place : Position) :
    (ofLexeme terminal lexeme place).text = lexeme := by
  cases hspelling : terminal.spelling? with
  | some spelling =>
    simp only [Terminal.lexeme?, hspelling, Option.ite_none_right_eq_some, Option.some.injEq] at h
    simp only [ofLexeme, Token.text, hspelling, h.2]
  | none => simp only [ofLexeme, Token.text, hspelling, Option.getD_some, String.toList_ofList]

theorem place_ofLexeme (terminal : Terminal) (lexeme : List Char) (place : Position) :
    (ofLexeme terminal lexeme place).place = place := by
  unfold ofLexeme
  split <;> rfl

end Token

-- The tokens stand in a text one behind the other, each at its place, with nothing but blanks
-- around them. The text is what comes behind `before`.
inductive LaidOut : List Char → List Char → List Token → Prop
  | nil (before : List Char) : LaidOut before [] []
  | blank {before text : List Char} {c : Char} {tokens : List Token} :
      isBlank c → LaidOut (before ++ [c]) text tokens → LaidOut before (c :: text) tokens
  | token {before text : List Char} {token : Token} {tokens : List Token} :
      token.text ≠ [] → (∀ c ∈ token.text, isSignificant c) → token.place = .behind before →
      LaidOut (before ++ token.text) text tokens →
      LaidOut before (token.text ++ text) (token :: tokens)

namespace LaidOut

variable {before text : List Char} {tokens : List Token}

theorem blanks {gap : List Char} (hgap : ∀ c ∈ gap, isBlank c)
    (h : LaidOut (before ++ gap) text tokens) : LaidOut before (gap ++ text) tokens := by
  induction gap generalizing before with
  | nil => simpa using h
  | cons c rest ih =>
    refine .blank (hgap c (by simp)) (ih (fun d hd => hgap d (by simp [hd])) ?_)
    simpa using h

theorem isKnown (h : LaidOut before text tokens) : ∀ c ∈ text, isKnown c := by
  induction h with
  | nil before => simp
  | blank hc _ ih =>
    intro d hd
    rcases List.mem_cons.mp hd with rfl | hd
    · simp [Text.isKnown, hc]
    · exact ih d hd
  | token _ hsignificant _ _ ih =>
    intro d hd
    rcases List.mem_append.mp hd with hd | hd
    · simp [Text.isKnown, hsignificant d hd]
    · exact ih d hd

-- The texts of the tokens are all of the text but its blanks.
theorem flatMap_text (h : LaidOut before text tokens) :
    tokens.flatMap Token.text = text.filter fun c => !isBlank c := by
  induction h with
  | nil before => rfl
  | blank hc _ ih => simp [hc, ih]
  | @token before text token tokens _ hsignificant _ _ ih =>
    have hkept : token.text.filter (fun c => !isBlank c) = token.text := by
      rw [List.filter_eq_self]
      intro c hc
      simp [isBlank_of_isSignificant (hsignificant c hc)]
    rw [List.flatMap_cons, List.filter_append, hkept, ih]

-- Leaving out the last tokens leaves those at the front of the text.
theorem of_append {first last : List Token} (h : LaidOut before text (first ++ last)) :
    ∃ front, front <+: text ∧ LaidOut before front first := by
  generalize htokens : first ++ last = tokens at h
  induction h generalizing first with
  | nil before =>
    obtain ⟨rfl, _⟩ := List.append_eq_nil_iff.mp htokens
    exact ⟨[], List.nil_prefix, .nil before⟩
  | @blank before text c tokens hc _ ih =>
    obtain ⟨front, hfront, hlaid⟩ := ih htokens
    exact ⟨c :: front, List.cons_prefix_cons.mpr ⟨rfl, hfront⟩, .blank hc hlaid⟩
  | @token before text token tokens hne hsignificant hplace _ ih =>
    cases first with
    | nil => exact ⟨[], List.nil_prefix, .nil before⟩
    | cons other rest =>
      obtain ⟨rfl, hrest⟩ := List.cons.inj htokens
      obtain ⟨front, hfront, hlaid⟩ := ih hrest
      exact ⟨other.text ++ front, (List.prefix_append_right_inj _).mpr hfront,
        .token hne hsignificant hplace hlaid⟩

end LaidOut

namespace Lexer

-- Between any two tokens the text that they are cut from is cut, too.
theorem Lexes.exists_split {place last : Position} {text left : List Char} {front back : List Token}
    (h : Lexes place text (front ++ back) last left) :
    ∃ middle rest, Lexes place text front middle rest ∧ Lexes middle rest back last left := by
  induction front generalizing place text with
  | nil => exact ⟨place, text, .done place text, h⟩
  | cons token front ih =>
    cases h with
    | token hfirst hrest =>
      obtain ⟨middle, rest, hfront, hback⟩ := ih hrest
      exact ⟨middle, rest, .token hfirst hfront, hback⟩

-- What the tokens are cut from stands in front of what is left.
theorem Lexes.exists_passed {before text left : List Char} {tokens : List Token} {last : Position}
    (h : Lexes (.behind before) text tokens last left) :
    ∃ passed, text = passed ++ left ∧ last = .behind (before ++ passed) := by
  generalize hplace : Position.behind before = place at h
  induction h generalizing before with
  | done place text => exact ⟨[], rfl, by rw [List.append_nil, hplace]⟩
  | @token place last text left lexeme terminal tokens hfirst _ ih =>
    obtain ⟨⟨after, rfl⟩, _, _⟩ := Terminal.first?_significant hfirst
    rw [List.drop_left] at ih
    subst hplace
    obtain ⟨passed, hpassed, hlast⟩ :=
      @ih (before ++ lexeme ++ after.takeWhile isBlank) (by simp only [Position.advance_behind])
    refine ⟨lexeme ++ (after.takeWhile isBlank ++ passed), ?_, by rw [hlast]; simp⟩
    rw [List.append_assoc, List.append_assoc, ← hpassed, List.takeWhile_append_dropWhile]

-- The first token is what is found at the front of the text, and the others are found behind the
-- blanks that follow it.
theorem Lexes.exists_rest {place last : Position} {text left : List Char} {token : Token}
    {tokens : List Token} (h : Lexes place text (token :: tokens) last left) :
    ∃ rest, text = token.text ++ rest ∧ token = .ofLexeme token.terminal token.text place ∧
      Terminal.first? text = some (token.terminal, token.text) ∧
      Lexes ((place.advance token.text).advance (rest.takeWhile isBlank)) (rest.dropWhile isBlank)
        tokens last left := by
  cases h with
  | @token _ _ _ _ lexeme terminal _ hfirst hrest =>
    obtain ⟨⟨rest, rfl⟩, _, _⟩ := Terminal.first?_significant hfirst
    rw [List.drop_left] at hrest
    have htext := Token.text_ofLexeme (Terminal.lexeme?_of_first? hfirst) place
    have hterminal := Token.ofLexeme_terminal terminal lexeme place
    refine ⟨rest, by rw [htext], by rw [htext, hterminal], by rw [htext, hterminal, hfirst], ?_⟩
    rw [htext]
    exact hrest

-- Each token is what is found at its place.
theorem Lexes.stands {before text left : List Char} {tokens : List Token} {last : Position}
    (h : Lexes (.behind before) text tokens last left) {token : Token} (htoken : token ∈ tokens) :
    ∃ front rest, before ++ text = front ++ (token.text ++ rest) ∧ token.place = .behind front ∧
      Terminal.first? (token.text ++ rest) = some (token.terminal, token.text) := by
  obtain ⟨first, others, rfl⟩ := List.append_of_mem htoken
  obtain ⟨middle, rest, hfront, hback⟩ := h.exists_split
  obtain ⟨passed, rfl, rfl⟩ := hfront.exists_passed
  obtain ⟨after, rfl, htoken, hfirst, _⟩ := hback.exists_rest
  refine ⟨before ++ passed, after, by rw [List.append_assoc], ?_, hfirst⟩
  rw [htoken, Token.place_ofLexeme]

-- What a scan of the text behind `before` says of the part that it has moved over: the tokens
-- found stand there, with one more if the scan was cut, and no terminal matches what is left.
structure Scan.Covers (scan : Scan) (before text : List Char) (found : List Token) : Prop where
  exists_layout : ∃ consumed tokens lost, text = consumed ++ scan.left ∧
    scan.found = found.reverse ++ tokens ∧ scan.place = .behind (before ++ consumed) ∧
    LaidOut before consumed (tokens ++ lost) ∧ (scan.isCut = false → lost = [])
  first?_left : scan.isCut = false → Terminal.first? scan.left = none
  solid : (∀ c ∈ text.head?, isBlank c = false) → ∀ c ∈ scan.left.head?, isBlank c = false

theorem head?_dropWhile_isBlank (text : List Char) :
    ∀ c ∈ (text.dropWhile isBlank).head?, isBlank c = false := by
  intro c hc
  have hnot := List.head?_dropWhile_not isBlank text
  rw [Option.mem_def.mp hc] at hnot
  simpa using hnot

theorem scan_covers (isShown : Token → Bool) (found : List Token) (before text : List Char)
    (log : Log) :
    (scan isShown found text (.behind before) log).Covers before text found := by
  induction hlength : text.length using Nat.strongRecOn generalizing found before text log with
  | ind length ih =>
    rw [scan]
    split
    · next hfirst =>
      exact ⟨⟨[], [], [], rfl, by simp, by simp, .nil before, fun _ => rfl⟩, fun _ => hfirst, id⟩
    · next terminal lexeme hfirst =>
      have hshorter := length_left_lt hfirst
      obtain ⟨⟨after, rfl⟩, hne, hsignificant⟩ := Terminal.first?_significant hfirst
      rw [List.drop_left, hlength] at hshorter
      have htext := Token.text_ofLexeme (Terminal.lexeme?_of_first? hfirst) (.behind before)
      have hplace := Token.place_ofLexeme terminal lexeme (.behind before)
      generalize Token.ofLexeme terminal lexeme (.behind before) = token at htext hplace
      subst htext
      have hblanks : ∀ c ∈ after.takeWhile isBlank, isBlank c :=
        fun c hc => List.mem_takeWhile_imp hc
      have hsplit := List.takeWhile_append_dropWhile (p := isBlank) (l := after)
      simp only [List.drop_left, Position.advance_behind]
      -- What the token and the blanks behind it are moved over for.
      have hstep : ∀ {rest tokens}, LaidOut (before ++ token.text ++ after.takeWhile isBlank) rest
          tokens → LaidOut before (token.text ++ (after.takeWhile isBlank ++ rest))
            (token :: tokens) :=
        fun hrest => .token hne hsignificant hplace (.blanks hblanks hrest)
      split
      · obtain ⟨⟨consumed, tokens, lost, hconsumed, hfound, hend, hlaid, hlost⟩, hleft, hsolid⟩ :=
          ih _ hshorter (token :: found) (before ++ token.text ++ after.takeWhile isBlank)
            (after.dropWhile isBlank) (log.note fun _ => s!"lex: {token.shown}") rfl
        refine ⟨⟨token.text ++ (after.takeWhile isBlank ++ consumed), token :: tokens, lost, ?_, ?_,
          ?_, hstep hlaid, hlost⟩, hleft, fun _ => hsolid (head?_dropWhile_isBlank after)⟩
        · rw [List.append_assoc, List.append_assoc, ← hconsumed, hsplit]
        · rw [hfound]
          simp
        · rw [hend]
          simp
      · refine ⟨⟨token.text ++ after.takeWhile isBlank, [], [token], ?_, by simp, by simp, ?_,
          by simp⟩, by simp, fun _ => head?_dropWhile_isBlank after⟩
        · rw [List.append_assoc, hsplit]
        · simpa using hstep (.nil _)

end Lexer

end TinyC
