import Mathlib.Data.List.Chain
import TinyC.Proofs.Token.Spacing

namespace TinyC

open Text

namespace Text

-- No word goes on from one text into another.
def Apart (first second : List Char) : Prop :=
  ∀ c ∈ first.getLast?, ∀ d ∈ second.head?, ¬ (isWord c ∧ isWord d)

-- No word goes on from one of the texts into the next that is not empty.
def Separate (texts : List (List Char)) : Prop := (texts.filter (· ≠ [])).IsChain Apart

theorem Apart.of_append {front text rest : List Char} (h : Apart (front ++ text) rest) :
    Apart text rest := by
  intro c hc
  refine h c ?_
  rw [List.getLast?_append, Option.mem_def.mp hc]
  rfl

-- A word ends where a text that stands apart from it begins.
theorem Apart.endsWord {word rest : List Char} (h : Apart word rest) (hne : word ≠ [])
    (hword : ∀ c ∈ word, isWord c) : Lexeme.endsWord rest := by
  cases rest with
  | nil => rfl
  | cons d more =>
    have hlast := hword _ (List.getLast_mem hne)
    have hd := h _ (List.getLast?_eq_some_getLast hne) d rfl
    simp only [hlast, true_and, Bool.not_eq_true] at hd
    simp [Lexeme.endsWord, hd]

theorem separate_nil_cons {texts : List (List Char)} :
    Separate ([] :: texts) ↔ Separate texts := by
  simp [Separate]

theorem separate_cons {text : List Char} {texts : List (List Char)} (hne : text ≠ []) :
    Separate (text :: texts) ↔
      (∀ next ∈ (texts.filter (· ≠ [])).head?, Apart text next) ∧ Separate texts := by
  have hkept : (text :: texts).filter (· ≠ []) = text :: texts.filter (· ≠ []) := by simp [hne]
  rw [Separate, hkept, List.isChain_cons, Separate]

theorem Separate.apart {first second : List Char} {texts : List (List Char)}
    (h : Separate (first :: second :: texts)) : Apart first second := by
  by_cases hfirst : first = []
  · subst hfirst
    intro c hc
    cases hc
  by_cases hsecond : second = []
  · subst hsecond
    intro c hc d hd
    cases hd
  exact ((separate_cons hfirst).mp h).1 second (by simp [hsecond])

-- Texts stay separate when two of them become one.
theorem Separate.append {first second : List Char} {texts : List (List Char)}
    (h : Separate (first :: second :: texts)) : Separate ((first ++ second) :: texts) := by
  by_cases hfirst : first = []
  · subst hfirst
    exact separate_nil_cons.mp h
  obtain ⟨hhead, htail⟩ := (separate_cons hfirst).mp h
  by_cases hsecond : second = []
  · subst hsecond
    rw [List.filter_cons_of_neg (by simp)] at hhead
    rw [List.append_nil]
    exact (separate_cons hfirst).mpr ⟨hhead, separate_nil_cons.mp htail⟩
  rw [separate_cons hsecond] at htail
  have hboth : first ++ second ≠ [] := by simp [hfirst]
  refine (separate_cons hboth).mpr ⟨?_, htail.2⟩
  intro next hnext c hc
  rw [List.getLast?_append_of_ne_nil _ hsecond] at hc
  exact htail.1 next hnext c hc

end Text

namespace Terminal

-- What is found at the front of a text does not depend on a text that stands apart from it.
theorem first?_append {text rest : List Char} (hne : text ≠ []) (h : Apart text rest) :
    first? (text ++ rest) = first? text := by
  obtain ⟨c, more, rfl⟩ := List.exists_cons_of_ne_nil hne
  by_cases hc : isSignificant c
  · rcases isWord_of_isSignificant hc with hsymbol | hword
    · obtain ⟨symbol, hfirst⟩ := exists_first?_symbol hsymbol
      rw [List.cons_append, hfirst, hfirst]
    · obtain ⟨run, after, hsplit, hrun, hwords, hends⟩ := Lexeme.exists_word hword more
      have hboth : Lexeme.endsWord (after ++ rest) := by
        cases after with
        | nil =>
          rw [hsplit, List.append_nil] at h
          exact h.endsWord hrun hwords
        | cons d others => exact hends
      rw [hsplit, List.append_assoc, first?_word_append hrun hboth, first?_word_append hrun hends]
  · have hnone : ∀ after, first? (c :: after) = none := by
      intro after
      rw [← Option.not_isSome_iff_eq_none, first?_isSome_iff]
      exact hc
    rw [List.cons_append, hnone, hnone]

end Terminal

namespace Lexer

-- The tokens of a text stay the same when a text that stands apart from it is added. The blanks
-- at its front are passed, too.
theorem Lexes.apart {place last : Position} {text rest : List Char} {tokens : List Token}
    (h : Lexes (place.advance (text.takeWhile isBlank)) (text.dropWhile isBlank) tokens last [])
    (hapart : Apart text rest) :
    Lexes (place.advance ((text ++ rest).takeWhile isBlank)) ((text ++ rest).dropWhile isBlank)
      tokens (last.advance (rest.takeWhile isBlank)) (rest.dropWhile isBlank) := by
  induction tokens generalizing place text with
  | nil =>
    have hsplit := List.takeWhile_append_dropWhile (p := isBlank) (l := text)
    generalize hsolid : text.dropWhile isBlank = solid at h hsplit
    cases h
    rw [List.append_nil] at hsplit
    rw [List.takeWhile_append, hsplit, if_pos rfl, List.dropWhile_append, hsolid, List.isEmpty_nil,
      if_pos rfl]
    simp only [Position.advance, List.foldl_append]
    exact .done _ _
  | cons token tokens ih =>
    have hsplit := List.takeWhile_append_dropWhile (p := isBlank) (l := text)
    have htake : (text ++ rest).takeWhile isBlank = _ := List.takeWhile_append
    have hdrop : (text ++ rest).dropWhile isBlank = _ := List.dropWhile_append
    generalize text.dropWhile isBlank = solid at h hsplit hdrop
    obtain ⟨after, rfl, htoken, hfirst, hrest⟩ := h.exists_rest
    have hne := Terminal.first?_ne_nil hfirst
    have hpositive := List.length_pos_iff.mpr hne
    have hlength := congrArg List.length hsplit
    rw [List.length_append, List.length_append] at hlength
    rw [if_neg (by omega)] at htake
    rw [if_neg (by simp [hne])] at hdrop
    rw [← hsplit] at hapart
    have hlonger := Terminal.first?_append (by simp [hne]) hapart.of_append
    rw [List.append_assoc, hfirst] at hlonger
    have hlexes := Lexes.cons hlonger (ih hrest hapart.of_append.of_append)
    rw [htake, hdrop, List.append_assoc]
    rwa [← htoken] at hlexes

end Lexer

end TinyC
