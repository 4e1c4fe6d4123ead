import TinyC.Proofs.Token.Cursor

namespace TinyC

open Text

namespace Text

-- Whether a character would touch the one before the blanks in front of it if those were left
-- out. Symbols stay apart from all else by themselves.
def keepsGap (before : Option Char) (c : Char) : Bool :=
  match before with
  | none => false
  | some last => !symbols.contains last && !symbols.contains c

-- A text in which each run of blanks at either end or beside a symbol is left out, and each
-- other run is one space. The text comes behind `before`, with blanks in between if `isGap`.
def spaced (before : Option Char) (isGap : Bool) : List Char → List Char
  | [] => []
  | c :: rest =>
    if isBlank c then spaced before true rest
    else if isGap && keepsGap before c then ' ' :: c :: spaced (some c) false rest
    else c :: spaced (some c) false rest

def normalForm (text : List Char) : List Char := spaced none false text

theorem isWord_of_isHexDigit {c : Char} (h : Lexeme.isHexDigit c) : isWord c := by
  have hascii : ∀ n < 128, Lexeme.isHexDigit (Char.ofNat n) → isWord (Char.ofNat n) := by
    decide +kernel
  have hdigit : Numeral.Base.sixteen.isDigit c := h
  exact Numeral.forall_ascii (p := fun c => Lexeme.isHexDigit c → isWord c) hascii
    (Numeral.Base.ascii_of_isDigit hdigit) h

theorem isWord_of_isSignificant {c : Char} (h : isSignificant c) : c ∈ symbols ∨ isWord c := by
  simp only [isSignificant, Bool.or_eq_true, List.contains_iff_mem] at h
  rcases h with (hsymbol | hdigit) | hletter
  · exact .inl hsymbol
  · exact .inr (isWord_of_isDigit hdigit)
  · exact .inr (isWord_of_isAlpha hletter)

-- Blanks behind part of a word are kept before all but symbols.
theorem keepsGap_of_isWord {last c : Char} (h : isWord last) :
    keepsGap (some last) c = true ↔ c ∉ symbols := by
  have hlast : last ∉ symbols := by
    intro hsymbol
    rw [isWord_of_symbol hsymbol] at h
    cases h
  simp [keepsGap, hlast]

section

variable {before : Option Char} {isGap : Bool}

-- What holds no blank is kept.
theorem spaced_append_of_solid {front : List Char} (h : ∀ c ∈ front, isBlank c = false)
    (rest : List Char) :
    spaced before false (front ++ rest) =
      front ++ spaced (front.getLast?.or before) false rest := by
  induction front generalizing before with
  | nil => rfl
  | cons c more ih =>
    have hc := h c (by simp)
    have hlast : ((c :: more).getLast?).or before = more.getLast?.or (some c) := by
      cases more with
      | nil => rfl
      | cons d others =>
        rw [List.getLast?_cons_cons]
        simp [List.getLast?_cons]
    rw [hlast, List.cons_append, spaced, ih fun d hd => h d (by simp [hd])]
    simp [hc]

-- Without the blanks at its front, a normal form does not depend on what comes before it.
theorem dropWhile_spaced (text : List Char) :
    (spaced before isGap text).dropWhile isBlank = normalForm (text.dropWhile isBlank) := by
  induction text generalizing isGap with
  | nil => rfl
  | cons c rest ih =>
    cases hblank : isBlank c with
    | true => simpa [spaced, hblank] using ih
    | false =>
      have hspace : isBlank ' ' = true := by decide
      by_cases hgap : (isGap && keepsGap before c) = true <;>
        simp [spaced, normalForm, hblank, hgap, hspace]

-- Behind part of a word a text ends the word if its normal form does.
theorem endsWord_spaced {last : Char} (hlast : isWord last) {text : List Char}
    (h : isGap = true ∨ Lexeme.endsWord text) :
    Lexeme.endsWord (spaced (some last) isGap text) := by
  induction text generalizing isGap with
  | nil => rfl
  | cons c rest ih =>
    cases hblank : isBlank c with
    | true => simpa [spaced, hblank] using ih (.inl rfl)
    | false =>
      by_cases hgap : (isGap && keepsGap (some last) c) = true
      · have hspace : isWord ' ' = false := by decide
        simp [spaced, hblank, hgap, Lexeme.endsWord, hspace]
      · have hword : isWord c = false := by
          rcases h with rfl | hends
          · rw [Bool.true_and, keepsGap_of_isWord hlast, not_not] at hgap
            exact isWord_of_symbol hgap
          · simpa [Lexeme.endsWord] using hends
        simp [spaced, hblank, hgap, Lexeme.endsWord, hword]

-- Blanks are of the alphabet, so that a text keeps to it exactly if its normal form does.
theorem isKnown_spaced (text : List Char) :
    (∀ c ∈ spaced before isGap text, isKnown c) ↔ ∀ c ∈ text, isKnown c := by
  induction text generalizing before isGap with
  | nil => simp [spaced]
  | cons c rest ih =>
    cases hblank : isBlank c with
    | true =>
      have hc : isKnown c = true := by simp [isKnown, hblank]
      simp [spaced, hblank, ih, hc]
    | false =>
      have hspace : isKnown ' ' = true := by decide
      by_cases hgap : (isGap && keepsGap before c) = true <;>
        simp [spaced, hblank, hgap, ih, hspace]

-- Line ends of any kind are blanks.
theorem spaced_unifyNewlines (text : List Char) :
    spaced before isGap (unifyNewlines text) = spaced before isGap text := by
  have hnewline : isBlank '\n' = true := by decide
  have hreturn : isBlank '\r' = true := by decide
  induction text using unifyNewlines.induct generalizing before isGap with
  | case1 rest ih => simp [unifyNewlines, spaced, hnewline, hreturn, ih]
  | case2 rest _ ih => simp [unifyNewlines, spaced, hnewline, hreturn, ih]
  | case3 c rest _ _ ih => simp [unifyNewlines, spaced, ih]
  | case4 => rfl

end

end Text

namespace Lexeme

theorem takeWhile_append_of_endsWord {isPart : Char → Bool} (hpart : ∀ c, isPart c → isWord c)
    {rest : List Char} (h : endsWord rest) (run : List Char) :
    (run ++ rest).takeWhile isPart = run.takeWhile isPart := by
  have hrest : rest.takeWhile isPart = [] := by
    cases rest with
    | nil => rfl
    | cons c more => simp [stops_of_endsWord h hpart c rfl]
  rw [List.takeWhile_append, hrest]
  split
  · next hall =>
    rw [List.append_nil]
    exact ((List.takeWhile_prefix isPart).eq_of_length hall).symm
  · rfl

theorem run?_append_of_endsWord {isPart : Char → Bool} (hpart : ∀ c, isPart c → isWord c)
    {rest : List Char} (h : endsWord rest) (run : List Char) :
    run? isPart (run ++ rest) = run? isPart run := by
  rw [run?, takeWhile_append_of_endsWord hpart h, run?]

-- A text that begins with part of a word begins with all of it.
theorem exists_word {c : Char} (hword : isWord c) (rest : List Char) :
    ∃ run after, c :: rest = run ++ after ∧ run ≠ [] ∧ (∀ d ∈ run, isWord d) ∧ endsWord after := by
  refine ⟨(c :: rest).takeWhile isWord, (c :: rest).dropWhile isWord,
    List.takeWhile_append_dropWhile.symm, by simp [hword], fun d hd => List.mem_takeWhile_imp hd, ?_⟩
  have hnot := List.head?_dropWhile_not isWord (c :: rest)
  cases hafter : (c :: rest).dropWhile isWord with
  | nil => rfl
  | cons d after =>
    rw [hafter] at hnot
    simpa [endsWord] using hnot

end Lexeme

namespace Terminal

open Lexeme

variable {run rest : List Char}

theorem lexeme?_keyword_append {terminal : Terminal} {spelling : List Char}
    (hspelling : terminal.spelling? = some spelling) (hkeyword : terminal.category = .keyword)
    (hletters : ∀ c ∈ spelling, c.isAlpha) (hends : endsWord rest) :
    terminal.lexeme? (run ++ rest) = terminal.lexeme? run := by
  by_cases hfront : spelling <+: run
  · obtain ⟨more, rfl⟩ := hfront
    have hdrop : endsWord (more ++ rest) = endsWord more := by
      cases more with
      | nil => exact hends
      | cons c others => rfl
    have hlong : spelling.isPrefixOf (spelling ++ more ++ rest) = true := by simp
    have hshort : spelling.isPrefixOf (spelling ++ more) = true := by simp
    have hlongDrop : (spelling ++ more ++ rest).drop spelling.length = more ++ rest := by simp
    have hshortDrop : (spelling ++ more).drop spelling.length = more := by simp
    simp only [lexeme?, hspelling, hkeyword, hlong, hshort, hlongDrop, hshortDrop, hdrop]
  · have hlong : ¬ spelling <+: run ++ rest := by
      intro hlong
      rcases List.prefix_or_prefix_of_prefix hlong (List.prefix_append run rest) with
        hshort | ⟨extra, rfl⟩
      · exact hfront hshort
      · cases extra with
        | nil => exact hfront (by simp)
        | cons c others =>
          -- The keyword would go on in the text behind the word.
          obtain ⟨left, rfl⟩ := (List.prefix_append_right_inj run).mp hlong
          have hword := isWord_of_endsWord hends c rfl
          rw [isWord_of_isAlpha (hletters c (by simp))] at hword
          cases hword
    rw [← List.isPrefixOf_iff_prefix, Bool.not_eq_true] at hfront hlong
    rw [lexeme?_of_not_isPrefixOf hspelling hfront, lexeme?_of_not_isPrefixOf hspelling hlong]

theorem lexeme?_hexadecimal_append (hne : run ≠ []) (hends : endsWord rest) :
    hexadecimal.lexeme? (run ++ rest) = hexadecimal.lexeme? run := by
  have hrun := run?_append_of_endsWord (fun c => isWord_of_isHexDigit) hends
  have hother : ∀ d, rest.head? = some d → d ≠ 'x' := by
    rintro d hd rfl
    have hword := isWord_of_endsWord hends 'x' hd
    revert hword
    decide
  match run with
  | [c] =>
    cases rest with
    | nil => rfl
    | cons d others =>
      have hd := hother d rfl
      simp [lexeme?, spelling?, hd]
  | c :: d :: more =>
    by_cases hmark : c = '0' ∧ d = 'x'
    · obtain ⟨rfl, rfl⟩ := hmark
      simp only [List.cons_append, lexeme?, spelling?, hrun]
    · have hnone : ∀ after, hexadecimal.lexeme? (c :: d :: after) = none := by
        intro after
        simp only [lexeme?, spelling?]
        split
        · next heq =>
          simp only [List.cons.injEq] at heq
          exact absurd ⟨heq.1, heq.2.1⟩ hmark
        · simp_all
        · simp_all
        · rfl
      rw [List.cons_append, List.cons_append, hnone, hnone]

-- What a terminal matches at a word depends on nothing behind the word.
theorem lexeme?_word_append (terminal : Terminal) (hne : run ≠ []) (hends : endsWord rest) :
    terminal.lexeme? (run ++ rest) = terminal.lexeme? run := by
  cases terminal with
  | intKeyword => exact lexeme?_keyword_append rfl rfl (List.all_eq_true.mp rfl) hends
  | returnKeyword => exact lexeme?_keyword_append rfl rfl (List.all_eq_true.mp rfl) hends
  | hexadecimal => exact lexeme?_hexadecimal_append hne hends
  | decimal => exact run?_append_of_endsWord (fun c => isWord_of_isDigit) hends run
  | identifier => exact run?_append_of_endsWord (fun c => isWord_of_isAlpha) hends run
  | _ =>
    obtain ⟨c, more, rfl⟩ := List.exists_cons_of_ne_nil hne
    rfl

theorem first?_word_append (hne : run ≠ []) (hends : endsWord rest) :
    first? (run ++ rest) = first? run := by
  simp only [first?, lexeme?_word_append _ hne hends]

-- The same terminal is found at the front of a text and of its normal form.
theorem first?_normalForm {text lexeme : List Char} {terminal : Terminal}
    (h : first? text = some (terminal, lexeme)) :
    first? (normalForm text) = some (terminal, lexeme) := by
  cases text with
  | nil => simp at h
  | cons c rest =>
    have hc : isSignificant c := first?_isSome_iff.mp (by rw [h]; rfl)
    have hsolid := isBlank_of_isSignificant hc
    rcases isWord_of_isSignificant hc with hsymbol | hword
    · obtain ⟨symbol, hfirst⟩ := exists_first?_symbol hsymbol
      have hnormal : normalForm (c :: rest) = c :: spaced (some c) false rest := by
        simp [normalForm, spaced, hsolid]
      rw [hnormal, hfirst, ← h, hfirst]
    · obtain ⟨run, after, hsplit, hne, hwords, hends⟩ := exists_word hword rest
      rw [hsplit, first?_word_append hne hends] at h
      have hlast : isWord (run.getLast hne) := hwords _ (List.getLast_mem hne)
      rw [hsplit, normalForm, spaced_append_of_solid fun d hd => isBlank_of_isWord (hwords d hd),
        List.getLast?_eq_some_getLast hne, Option.some_or,
        first?_word_append hne (endsWord_spaced hlast (.inr hends)), h]

end Terminal

namespace Token

def unplaced (token : Token) : Token := { token with place := ⟨0, 0⟩ }

theorem unplaced_ofLexeme (terminal : Terminal) (lexeme : List Char) (place other : Position) :
    (ofLexeme terminal lexeme place).unplaced = (ofLexeme terminal lexeme other).unplaced := by
  unfold ofLexeme
  split <;> rfl

end Token

namespace Lexer

-- A text and its normal form are cut into the same tokens.
theorem Lexes.normalForm {place last : Position} {text left : List Char} {tokens : List Token}
    (h : Lexes place text tokens last left) (hleft : left = []) (other : Position) :
    ∃ found final, Lexes other (Text.normalForm text) found final [] ∧
      found.map Token.unplaced = tokens.map Token.unplaced := by
  induction h generalizing other with
  | done place text =>
    subst hleft
    exact ⟨[], other, .done other [], rfl⟩
  | @token place last text left lexeme terminal tokens hfirst _ ih =>
    have hnormal := Terminal.first?_normalForm hfirst
    obtain ⟨⟨after, rfl⟩, hne, hsignificant⟩ := Terminal.first?_significant hfirst
    have hsolid : ∀ c ∈ lexeme, isBlank c = false := fun c hc =>
      isBlank_of_isSignificant (hsignificant c hc)
    rw [Text.normalForm, spaced_append_of_solid hsolid] at hnormal ⊢
    generalize hrest : spaced (lexeme.getLast?.or none) false after = rest at hnormal
    have hdrop : rest.dropWhile isBlank = Text.normalForm (after.dropWhile isBlank) := by
      rw [← hrest, dropWhile_spaced]
    rw [List.drop_left] at ih
    obtain ⟨found, final, hfound, hsame⟩ :=
      ih hleft ((other.advance lexeme).advance (rest.takeWhile isBlank))
    refine ⟨.ofLexeme terminal lexeme other :: found, final, .token hnormal ?_, ?_⟩
    · rw [List.drop_left, hdrop]
      exact hfound
    · rw [List.map_cons, List.map_cons, hsame, Token.unplaced_ofLexeme _ _ other place]

-- A text is read to its end exactly if it keeps to the alphabet.
theorem exists_tokens_iff (source : String) (log : Log) :
    (∃ tokens, (TinyC.tokenize source log).1 = .ok tokens) ↔
      ∀ c ∈ source.toList, isKnown c := by
  constructor
  · rintro ⟨tokens, htokens⟩
    exact (laidOut_of_tokenize htokens).isKnown
  · intro hknown
    obtain ⟨lexer, after, htokenize, _, _⟩ :=
      tokenize_known_front source log (List.append_nil _).symm hknown (by simp)
    refine ⟨lexer.held, ?_⟩
    simp only [TinyC.tokenize, htokenize]
    rfl

-- A text has the tokens of its normal form, at other places.
theorem tokenize_normalForm {source : String} {log : Log} {tokens : List Token}
    (h : (TinyC.tokenize source log).1 = .ok tokens) (other : Log) :
    ∃ found, (TinyC.tokenize (String.ofList (Text.normalForm source.toList)) other).1 = .ok found ∧
      found.map Token.unplaced = tokens.map Token.unplaced := by
  obtain ⟨last, hlexes⟩ := (tokenize_eq_ok_iff source log tokens).mp h
  obtain ⟨found, final, hfound, hsame⟩ := hlexes.normalForm rfl
    (Position.start.advance ((Text.normalForm source.toList).takeWhile isBlank))
  refine ⟨found, (tokenize_eq_ok_iff _ other found).mpr ⟨final, ?_⟩, hsame⟩
  rw [String.toList_ofList, Text.normalForm, dropWhile_spaced]
  exact hfound

-- Texts of one normal form have the same tokens, or else no tokens.
theorem tokenize_of_normalForm_eq {first second : String}
    (h : Text.normalForm first.toList = Text.normalForm second.toList) (log other : Log) :
    ((∃ error, (TinyC.tokenize first log).1 = .error error) ∧
      ∃ error, (TinyC.tokenize second other).1 = .error error) ∨
    ∃ tokens found, (TinyC.tokenize first log).1 = .ok tokens ∧
      (TinyC.tokenize second other).1 = .ok found ∧
      tokens.map Token.unplaced = found.map Token.unplaced := by
  have hknown : (∀ c ∈ first.toList, isKnown c) ↔ ∀ c ∈ second.toList, isKnown c := by
    rw [← isKnown_spaced first.toList, ← isKnown_spaced second.toList]
    exact Eq.to_iff (congrArg (fun text => ∀ c ∈ text, isKnown c) h)
  rw [← exists_tokens_iff first log, ← exists_tokens_iff second other] at hknown
  cases hfirst : (TinyC.tokenize first log).1 with
  | error error =>
    cases hsecond : (TinyC.tokenize second other).1 with
    | error last => exact .inl ⟨⟨error, rfl⟩, last, rfl⟩
    | ok found =>
      obtain ⟨tokens, htokens⟩ := hknown.mpr ⟨found, hsecond⟩
      rw [hfirst] at htokens
      cases htokens
  | ok tokens =>
    obtain ⟨found, hsecond⟩ := hknown.mp ⟨tokens, hfirst⟩
    obtain ⟨normal, hnormal, hsame⟩ := tokenize_normalForm hfirst .silent
    obtain ⟨again, hagain, hsameAgain⟩ := tokenize_normalForm hsecond .silent
    rw [h, hagain] at hnormal
    cases hnormal
    exact .inr ⟨tokens, found, rfl, hsecond, hsame.symm.trans hsameAgain⟩

end Lexer

end TinyC
