import TinyC.Proofs.Token.Apart

namespace TinyC.Lexer

open Text

-- From the cursors below this one a lexer can be resumed.
def reach : Nat := 0x8000000000000000

-- The places that can be reached can be shown, too.
theorem isWritable_behind {front : List Char} (h : front.length < reach) :
    (Position.behind front).isWritable := by
  have hwritable : ∀ n : Int, 0 ≤ n → n ≤ reach → Numeral.isWritable n := by
    intro n hlow hhigh
    have hbound : n.natAbs < 10 ^ (19 + 1) := by
      unfold reach at hhigh
      omega
    exact decide_eq_true (Nat.le_trans (Numeral.length_decimalDigits_le hbound) (by decide))
  have hcount := front.count_le_length (a := '\n')
  have hstart : Position.lineStart front ≤ front.length := Nat.sub_le _ _
  simp only [Position.isWritable, Position.behind]
  rw [hwritable _ (by omega) (by omega), hwritable _ (by omega) (by omega)]
  rfl

-- A lexer that has read all of its text, as these tokens.
structure HasRead (lexer : Lexer) (tokens : List Token) : Prop where
  cursor : lexer.IsExact
  ahead : lexer.ahead = []
  lexes : Lexes (Position.start.advance (lexer.source.takeWhile isBlank))
    (lexer.source.dropWhile isBlank) tokens (.behind lexer.source) []

theorem hasRead_empty : (ofSource "").HasRead [] := ⟨isExact_ofSource "", rfl, .done _ _⟩

theorem HasRead.passed_eq {lexer : Lexer} {tokens : List Token} (h : lexer.HasRead tokens) :
    lexer.passed = lexer.source := by
  rw [← lexer.passed_append_ahead, h.ahead, List.append_nil]

theorem HasRead.tokenize_source {lexer : Lexer} {tokens : List Token} (h : lexer.HasRead tokens)
    (log : Log) : (TinyC.tokenize (String.ofList lexer.source) log).1 = .ok tokens := by
  rw [tokenize_eq_ok_iff, String.toList_ofList]
  exact ⟨_, h.lexes⟩

theorem HasRead.isKnown {lexer : Lexer} {tokens : List Token} (h : lexer.HasRead tokens) :
    ∀ c ∈ lexer.source, isKnown c := by
  have hlaid := laidOut_of_tokenize (h.tokenize_source .silent)
  rw [String.toList_ofList] at hlaid
  exact hlaid.isKnown

-- How a text is left that is read from its start: it is read to its end, or up to its first
-- foreign character, or it is too long to be read.
inductive Ends (text : List Char) : Except Fault (List Token) → Lexer → Prop
  | all {tokens : List Token} {lexer : Lexer} :
      lexer.source = text → lexer.HasRead tokens → Ends text (.ok tokens) lexer
  | foreign {front left : List Char} {error : LexError} {lexer : Lexer} :
      text = front ++ left → (∀ c ∈ front, isKnown c) → left ≠ [] →
      (∀ c ∈ left.head?, isKnown c = false) → error.place = .behind front →
      lexer.offset = front.length → Ends text (.error (.unmatched error)) lexer
  | tooLong {fault : Fault} {lexer : Lexer} :
      reach ≤ text.length → (∀ error, fault ≠ .unmatched error) → Ends text (.error fault) lexer

-- A text that is too long, or has a foreign character, stays so when more comes behind it.
theorem Ends.append {text : List Char} {fault : Fault} {lexer : Lexer}
    (h : Ends text (.error fault) lexer) (more : List Char) :
    Ends (text ++ more) (.error fault) lexer := by
  cases h with
  | foreign htext hfront hleft hforeign hplace hoffset =>
    refine .foreign (by rw [htext, List.append_assoc]) hfront (by simp [hleft]) ?_ hplace hoffset
    rwa [List.head?_append_of_ne_nil _ hleft]
  | tooLong hlength hfault =>
    refine .tooLong ?_ hfault
    rw [List.length_append]
    omega

-- The places of a text that is not too long can all be shown.
theorem IsExact.isCut_run {lexer : Lexer} (h : lexer.IsExact)
    (hlength : lexer.source.length < reach) (log : Log) :
    (lexer.run (fun token => log.isSilent || token.place.isWritable) log).1.isCut = false := by
  obtain ⟨tokens, last, left, hlexes, hend⟩ := exists_lexes (lexer.ahead.dropWhile isBlank)
    (.behind (lexer.passed ++ lexer.ahead.takeWhile isBlank))
  have hshown : ∀ token ∈ tokens, (log.isSilent || token.place.isWritable) = true := by
    intro token htoken
    obtain ⟨front, rest, hsource, hplace, _⟩ := hlexes.stands htoken
    rw [List.append_assoc, List.takeWhile_append_dropWhile, passed_append_ahead] at hsource
    have hfront : front.length ≤ lexer.source.length := by
      rw [hsource, List.length_append]
      exact Nat.le_add_right _ _
    rw [hplace, isWritable_behind (Nat.lt_of_le_of_lt hfront hlength), Bool.or_true]
  have hscan := scan_of_lexes hlexes hend hshown [] log
  rw [← Position.advance_behind, ← h.place] at hscan
  simp only [Lexer.run, h.countedBlanks_eq, hscan]

-- What a run adds to the text and the tokens that have been read.
theorem HasRead.run {lexer : Lexer} {tokens : List Token} (h : lexer.HasRead tokens)
    {chunk : String} (hapart : Apart lexer.source chunk.toList) (isShown : Token → Bool) (log : Log)
    (hcut : ((lexer.feed chunk).run isShown log).1.isCut = false)
    (hahead : ((lexer.feed chunk).run isShown log).2.ahead = []) :
    ((lexer.feed chunk).run isShown log).2.HasRead
      (tokens ++ ((lexer.feed chunk).run isShown log).2.held) := by
  have hfed := h.cursor.feed chunk
  have hrun := hfed.run isShown log
  have hback := hfed.lexes_run isShown log hcut
  rw [h.cursor.passed_feed, h.cursor.ahead_feed, h.passed_eq, h.ahead, List.nil_append, hahead,
    ← Position.advance_behind] at hback
  refine ⟨hrun.cursor, hahead, ?_⟩
  have hpassed := passed_append_ahead ((lexer.feed chunk).run isShown log).2
  rw [hahead, List.append_nil] at hpassed
  rw [hpassed, hrun.source] at hback
  rw [hrun.source]
  exact (h.lexes.apart hapart).append hback

-- One reading goes on as the text that has grown is read from its start.
theorem HasRead.resume {lexer : Lexer} {tokens : List Token} (h : lexer.HasRead tokens)
    {chunk : String} (hapart : Apart lexer.source chunk.toList) (log : Log) :
    Ends (lexer.source ++ chunk.toList) (((lexer.feed chunk).resume log).1.map (tokens ++ ·))
      ((lexer.feed chunk).resume log).2.1 := by
  have hfed := h.cursor.feed chunk
  have hnonneg := hfed.nonneg
  have hwithin := hfed.within
  have hlength : (lexer.feed chunk).source.length = (lexer.source ++ chunk.toList).length := rfl
  simp only [Lexer.resume]
  split
  · have hrun := hfed.run (fun token => log.isSilent || token.place.isWritable) log
    have hread := h.run hapart (fun token => log.isSilent || token.place.isWritable) log
    have hshort := fun hlength => hfed.isCut_run hlength log
    generalize (lexer.feed chunk).run (fun token => log.isSilent || token.place.isWritable) log =
      ran at hrun hread hshort
    obtain ⟨scan, next⟩ := ran
    cases hcut : scan.isCut with
    | true =>
      refine .tooLong (Nat.not_lt.mp fun hlength => ?_) (by simp)
      have huncut := hshort hlength
      rw [hcut] at huncut
      cases huncut
    | false =>
      simp only [Bool.false_eq_true, if_false, hrun.result_eq]
      cases hahead : next.ahead with
      | nil => exact .all hrun.source (hread hcut hahead)
      | cons c rest =>
        obtain ⟨consumed, lost, hconsumed, hlaid, _⟩ := hrun.exists_layout
        have hpassed := hrun.passed_eq hconsumed
        have hsource := next.passed_append_ahead
        have hforeign := hrun.isKnown_ahead hcut
        rw [h.cursor.passed_feed, h.passed_eq] at hpassed
        rw [hahead] at hsource hforeign
        refine .foreign (hrun.source.symm.trans hsource.symm) ?_ (by simp) hforeign rfl
          hrun.cursor.length_passed.symm
        intro d hd
        rw [hpassed] at hd
        rcases List.mem_append.mp hd with hd | hd
        · exact h.isKnown d hd
        · exact hlaid.isKnown d hd
  · refine .tooLong ?_ (by simp)
    unfold reach
    omega

-- Adds the chunks to the text one by one and reads after each what lies ahead of the cursor, as
-- long as there is no fault.
def readEach (lexer : Lexer) (log : Log) :
    List String → Except Fault (List Token) × Lexer
  | [] => (.ok [], lexer)
  | chunk :: chunks =>
    match (lexer.feed chunk).resume log with
    | (.error fault, next, _) => (.error fault, next)
    | (.ok tokens, next, log) =>
      let (result, last) := next.readEach log chunks
      (result.map (tokens ++ ·), last)

-- The session goes on as the whole text is read from its start.
theorem HasRead.readEach {lexer : Lexer} {tokens : List Token} (h : lexer.HasRead tokens)
    {chunks : List String} (hseparate : Separate (lexer.source :: chunks.map String.toList))
    (log : Log) :
    Ends (lexer.source ++ (String.join chunks).toList)
      ((lexer.readEach log chunks).1.map (tokens ++ ·)) (lexer.readEach log chunks).2 := by
  induction chunks generalizing lexer tokens log with
  | nil =>
    rw [String.join_nil]
    simp only [Lexer.readEach, Except.map, List.append_nil]
    exact .all (by simp) h
  | cons chunk chunks ih =>
    have hstep := h.resume hseparate.apart log
    rw [String.join_cons, String.toList_append, ← List.append_assoc, Lexer.readEach]
    generalize (lexer.feed chunk).resume log = outcome at hstep
    obtain ⟨result, next, after⟩ := outcome
    cases result with
    | error fault => exact hstep.append _
    | ok found =>
      cases hstep with
      | all hsource hnext =>
        have hrest := ih hnext (by rw [hsource]; exact hseparate.append) after
        rw [hsource] at hrest
        dsimp only
        generalize next.readEach after chunks = ended at hrest
        obtain ⟨result, last⟩ := ended
        cases result with
        | error fault => exact hrest
        | ok more => simpa [Except.map, List.append_assoc] using hrest

-- A text that is read in parts, between which no word goes on, is read as it is at once. Where
-- the parts have a foreign character the cursor comes to stand at that, as it does in the whole
-- text. Nothing else ends the reading of a text that is not too long.
theorem reading_in_parts_is_reading_at_once (chunks : List String)
    (hseparate : Separate (chunks.map String.toList)) (log other : Log) :
    (∀ tokens last, (ofSource "").readEach log chunks = (.ok tokens, last) →
      (TinyC.tokenize (String.join chunks) other).1 = .ok tokens) ∧
    (∀ error last, (ofSource "").readEach log chunks = (.error (.unmatched error), last) →
      ∃ whole lexer after, (ofSource (String.join chunks)).tokenize other =
          (.error whole, lexer, after) ∧
        error.place = whole.place ∧ last.offset = lexer.offset) ∧
    ((String.join chunks).length < reach → ∀ fault last,
      (ofSource "").readEach log chunks = (.error fault, last) →
        ∃ error, fault = .unmatched error) := by
  have hfirst : Separate ((ofSource "").source :: chunks.map String.toList) :=
    separate_nil_cons.mpr hseparate
  have hends := hasRead_empty.readEach hfirst log
  have hmap : ∀ result : Except Fault (List Token), result.map (([] : List Token) ++ ·) = result := by
    intro result
    cases result <;> rfl
  have hsource : (ofSource "").source ++ (String.join chunks).toList =
      (String.join chunks).toList := rfl
  rw [hmap, hsource] at hends
  refine ⟨?_, ?_, ?_⟩
  · intro tokens last hread
    rw [hread] at hends
    cases hends with
    | all htext hall =>
      have htokens := hall.tokenize_source other
      rwa [htext, String.ofList_toList] at htokens
  · intro error last hread
    rw [hread] at hends
    cases hends with
    | foreign htext hfront hleft hforeign hplace hoffset =>
      obtain ⟨lexer, after, htokenize, hother, _⟩ :=
        tokenize_known_front _ other htext hfront hforeign
      rw [if_neg (by simpa using hleft)] at htokenize
      exact ⟨_, lexer, after, htokenize, hplace, hoffset.trans hother.symm⟩
    | tooLong _ hfault => exact absurd rfl (hfault error)
  · intro hlength fault last hread
    rw [hread] at hends
    cases hends with
    | @foreign _ _ error => exact ⟨error, rfl⟩
    | tooLong hlong _ =>
      rw [String.length_toList] at hlong
      omega

-- A name and a number are read in three parts. In other parts a foreign letter is reported at the
-- place that it has in the whole text.
theorem reading_in_parts_is_reading_at_once_name :
    Separate (["ab", "", " 1", "\n;"].map String.toList) ∧
      ((ofSource "").readEach .silent ["ab", "", " 1", "\n;"]).1 =
        .ok [⟨.identifier, some "ab", ⟨1, 1⟩⟩, ⟨.decimal, some "1", ⟨1, 4⟩⟩,
          ⟨.semicolon, none, ⟨2, 1⟩⟩] ∧
      (TinyC.tokenize (String.join ["ab", "", " 1", "\n;"]) .silent).1 =
        .ok [⟨.identifier, some "ab", ⟨1, 1⟩⟩, ⟨.decimal, some "1", ⟨1, 4⟩⟩,
          ⟨.semicolon, none, ⟨2, 1⟩⟩] ∧
      Separate (["1\n", "é"].map String.toList) ∧ (String.join ["1\n", "é"]).length < reach ∧
      ((ofSource "").readEach .silent ["1\n", "é"]).1 = .error (.unmatched ⟨['é'], ⟨2, 1⟩⟩) ∧
      (∃ whole lexer after, (ofSource (String.join ["1\n", "é"])).tokenize .silent =
          (.error whole, lexer, after) ∧
        ⟨2, 1⟩ = whole.place ∧
          ((ofSource "").readEach .silent ["1\n", "é"]).2.offset = lexer.offset) ∧
      ∃ error, Fault.unmatched ⟨['é'], ⟨2, 1⟩⟩ = .unmatched error := by
  have hname : Separate (["ab", "", " 1", "\n;"].map String.toList) := by
    simp [Separate, Apart]
    decide
  have hforeign : Separate (["1\n", "é"].map String.toList) := by
    simp [Separate, Apart]
    decide
  have hread : ((ofSource "").readEach .silent ["ab", "", " 1", "\n;"]).1 =
      .ok [⟨.identifier, some "ab", ⟨1, 1⟩⟩, ⟨.decimal, some "1", ⟨1, 4⟩⟩,
        ⟨.semicolon, none, ⟨2, 1⟩⟩] := by
    decide +kernel
  have hfault : ((ofSource "").readEach .silent ["1\n", "é"]).1 =
      .error (.unmatched ⟨['é'], ⟨2, 1⟩⟩) := by
    decide +kernel
  have hlength : (String.join ["1\n", "é"]).length < reach := by decide +kernel
  obtain ⟨_, hplace, hreach⟩ :=
    reading_in_parts_is_reading_at_once ["1\n", "é"] hforeign .silent .silent
  refine ⟨hname, hread, ?_, hforeign, hlength, hfault, ?_, ?_⟩
  · exact (reading_in_parts_is_reading_at_once _ hname .silent .silent).1 _ _ (Prod.ext hread rfl)
  · exact hplace _ _ (Prod.ext hfault rfl)
  · exact hreach hlength _ _ (Prod.ext hfault rfl)

end TinyC.Lexer
