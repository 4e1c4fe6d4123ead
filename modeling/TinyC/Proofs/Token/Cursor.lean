import TinyC.Proofs.Token.Layout

namespace TinyC.Lexer

open Text (isBlank isKnown)

-- The text that the cursor has passed.
def passed (lexer : Lexer) : List Char := lexer.source.take lexer.offset.toNat

theorem passed_append_ahead (lexer : Lexer) : lexer.passed ++ lexer.ahead = lexer.source :=
  List.take_append_drop _ _

-- The cursor is within the text, and its place is that of what lies ahead.
structure IsExact (lexer : Lexer) : Prop where
  nonneg : 0 ≤ lexer.offset
  within : lexer.offset ≤ lexer.source.length
  place : lexer.place = .behind lexer.passed

theorem isExact_ofSource (source : String) : (ofSource source).IsExact :=
  ⟨Int.le_refl 0, Int.natCast_nonneg _, rfl⟩

-- No blank is before the start of the text.
theorem IsExact.countedBlanks_eq {lexer : Lexer} (h : lexer.IsExact) :
    lexer.countedBlanks = lexer.ahead.takeWhile isBlank := by
  simp [countedBlanks, Int.not_lt.mpr h.nonneg]

theorem IsExact.passed_feed {lexer : Lexer} (h : lexer.IsExact) (text : String) :
    (lexer.feed text).passed = lexer.passed := by
  have hwithin := h.within
  have htoNat : lexer.offset.toNat ≤ lexer.source.length := by omega
  exact List.take_append_of_le_length htoNat

theorem IsExact.ahead_feed {lexer : Lexer} (h : lexer.IsExact) (text : String) :
    (lexer.feed text).ahead = lexer.ahead ++ text.toList := by
  have hwithin := h.within
  have htoNat : lexer.offset.toNat ≤ lexer.source.length := by omega
  exact List.drop_append_of_le_length htoNat

-- Text that is added behind the source moves nothing before it.
theorem IsExact.feed {lexer : Lexer} (h : lexer.IsExact) (text : String) :
    (lexer.feed text).IsExact := by
  have hwithin := h.within
  refine ⟨h.nonneg, ?_, ?_⟩
  · simp only [Lexer.feed, List.length_append]
    omega
  · rw [h.passed_feed]
    exact h.place

-- What a run from the cursor of `lexer` comes to. The tokens that it holds stand one behind the
-- other from there on, unless the run was cut with one more up to the new cursor.
structure RunsTo (lexer next : Lexer) (scan : Scan) : Prop where
  cursor : next.IsExact
  source : next.source = lexer.source
  held : next.held = scan.found
  left : scan.left = next.ahead
  place : scan.place = next.place
  exists_layout : ∃ consumed lost, lexer.ahead = consumed ++ next.ahead ∧
    LaidOut lexer.passed consumed (next.held ++ lost) ∧ (scan.isCut = false → lost = [])
  first?_ahead : scan.isCut = false → Terminal.first? next.ahead = none
  solid : ∀ c ∈ next.ahead.head?, isBlank c = false

theorem split_before {source front left : List Char} (h : source = front ++ left) :
    source.take ((source.length : Int) - left.length).toNat = front ∧
      source.drop ((source.length : Int) - left.length).toNat = left := by
  subst h
  have htoNat : (((front ++ left).length : Int) - left.length).toNat = front.length := by
    rw [List.length_append]
    omega
  rw [htoNat]
  exact ⟨List.take_left, List.drop_left⟩

theorem IsExact.run {lexer : Lexer} (h : lexer.IsExact) (isShown : Token → Bool) (log : Log) :
    RunsTo lexer (lexer.run isShown log).2 (lexer.run isShown log).1 := by
  have hnonneg := h.nonneg
  have hwithin := h.within
  have hcounted := h.countedBlanks_eq
  have hblanks : ∀ c ∈ lexer.ahead.takeWhile isBlank, isBlank c :=
    fun c hc => List.mem_takeWhile_imp hc
  have hahead := List.takeWhile_append_dropWhile (p := isBlank) (l := lexer.ahead)
  have hsource := lexer.passed_append_ahead
  have hcovers := scan_covers isShown [] (lexer.passed ++ lexer.ahead.takeWhile isBlank)
    (lexer.ahead.dropWhile isBlank) log
  simp only [Lexer.run, hcounted, h.place, Position.advance_behind]
  generalize scan isShown [] (lexer.ahead.dropWhile isBlank)
    (.behind (lexer.passed ++ lexer.ahead.takeWhile isBlank)) log = scan at hcovers ⊢
  obtain ⟨⟨consumed, tokens, lost, hconsumed, hfound, hend, hlaid, hlost⟩, hleft, hsolid⟩ := hcovers
  have hall : lexer.source =
      (lexer.passed ++ (lexer.ahead.takeWhile isBlank ++ consumed)) ++ scan.left := by
    rw [List.append_assoc, List.append_assoc, ← hconsumed, hahead, hsource]
  have hlength := congrArg List.length hall
  rw [List.length_append] at hlength
  obtain ⟨hpassed, hdrop⟩ := split_before hall
  refine ⟨⟨?_, ?_, ?_⟩, rfl, rfl, hdrop.symm, rfl, ?_, ?_, ?_⟩
  · simp only
    omega
  · simp only
    omega
  · simp only [passed, hpassed, hend, List.append_assoc]
  · refine ⟨lexer.ahead.takeWhile isBlank ++ consumed, lost, ?_, ?_, hlost⟩
    · simp only [ahead, hdrop]
      rw [List.append_assoc, ← hconsumed]
      exact hahead.symm
    · rw [hfound]
      exact .blanks hblanks hlaid
  · simp only [ahead, hdrop]
    exact hleft
  · simp only [ahead, hdrop]
    exact hsolid (head?_dropWhile_isBlank _)

-- The tokens that an uncut run holds are those of the text between its cursors.
theorem IsExact.lexes_run {lexer : Lexer} (h : lexer.IsExact) (isShown : Token → Bool) (log : Log)
    (hcut : (lexer.run isShown log).1.isCut = false) :
    Lexes (.behind (lexer.passed ++ lexer.ahead.takeWhile isBlank))
      (lexer.ahead.dropWhile isBlank) (lexer.run isShown log).2.held
      (.behind (lexer.run isShown log).2.passed) (lexer.run isShown log).2.ahead := by
  have hrun := h.run isShown log
  have hcounted := h.countedBlanks_eq
  obtain ⟨tokens, hfound, hlexes⟩ := scan_lexes isShown [] _ _ log rfl hcut
  rw [List.reverse_nil, List.nil_append] at hfound
  rw [← hfound, hcounted, h.place, Position.advance_behind] at hlexes
  rw [hrun.held, ← hrun.left, ← hrun.cursor.place, ← hrun.place, Lexer.run, hcounted, h.place,
    Position.advance_behind]
  exact hlexes

theorem IsExact.length_passed {lexer : Lexer} (h : lexer.IsExact) :
    (lexer.passed.length : Int) = lexer.offset := by
  have hnonneg := h.nonneg
  have hwithin := h.within
  simp only [passed, List.length_take]
  omega

section

variable {lexer next : Lexer} {scan : Scan}

theorem RunsTo.passed_eq (h : RunsTo lexer next scan) {consumed : List Char}
    (hahead : lexer.ahead = consumed ++ next.ahead) :
    next.passed = lexer.passed ++ consumed := by
  have hsource : next.passed ++ next.ahead = lexer.passed ++ lexer.ahead := by
    rw [passed_append_ahead, passed_append_ahead, h.source]
  rw [hahead, ← List.append_assoc] at hsource
  exact List.append_cancel_right hsource

-- A run gives out what it holds, or else what it leaves and the place of that.
theorem RunsTo.result_eq (h : RunsTo lexer next scan) :
    scan.result = if next.ahead.isEmpty then .ok next.held
      else .error ⟨next.ahead, .behind next.passed⟩ := by
  rw [Scan.result, h.left, h.place, h.held, h.cursor.place]

theorem RunsTo.laidOut_of_ok (h : RunsTo lexer next scan) (hcut : scan.isCut = false)
    {tokens : List Token} (hresult : scan.result = .ok tokens) :
    LaidOut lexer.passed lexer.ahead tokens := by
  obtain ⟨consumed, lost, hahead, hlaid, hlost⟩ := h.exists_layout
  rw [h.result_eq] at hresult
  cases hnext : next.ahead with
  | nil =>
    rw [hnext] at hresult hahead
    cases hresult
    rw [hlost hcut, List.append_nil] at hlaid
    rwa [hahead, List.append_nil]
  | cons c rest =>
    rw [hnext] at hresult
    cases hresult

theorem RunsTo.of_error (h : RunsTo lexer next scan) {error : LexError}
    (hresult : scan.result = .error error) :
    error.remaining = next.ahead ∧ error.remaining ≠ [] ∧ error.place = .behind next.passed := by
  rw [h.result_eq] at hresult
  cases hnext : next.ahead with
  | nil =>
    rw [hnext] at hresult
    cases hresult
  | cons c rest =>
    rw [hnext] at hresult
    cases hresult
    exact ⟨rfl, by simp, rfl⟩

-- What a run that is not cut leaves begins with a foreign character.
theorem RunsTo.isKnown_ahead (h : RunsTo lexer next scan) (hcut : scan.isCut = false) :
    ∀ c ∈ next.ahead.head?, isKnown c = false := by
  intro c hc
  obtain ⟨rest, hahead⟩ := List.head?_eq_some_iff.mp (Option.mem_def.mp hc)
  have hblank := h.solid c hc
  have hfirst := h.first?_ahead hcut
  rw [hahead, ← Option.not_isSome_iff_eq_none, Terminal.first?_isSome_iff] at hfirst
  simp [isKnown, hblank, hfirst]

end

-- A run without a log to show its tokens in is never cut.
theorem isCut_scan (found : List Token) (text : List Char) (place : Position) (log : Log) :
    (scan (fun _ => true) found text place log).isCut = false := by
  obtain ⟨tokens, last, left, hlexes, hend⟩ := exists_lexes text place
  rw [scan_of_lexes hlexes hend (fun _ _ => rfl) found log]

-- A text is split in one way before its first foreign character.
theorem split_known {front left more rest : List Char} (hfront : ∀ c ∈ front, isKnown c)
    (hleft : ∀ c ∈ left.head?, isKnown c = false) (hmore : ∀ c ∈ more, isKnown c)
    (hrest : ∀ c ∈ rest.head?, isKnown c = false) (h : front ++ left = more ++ rest) :
    front = more ∧ left = rest := by
  have htake : ∀ {known foreign : List Char}, (∀ c ∈ known, isKnown c) →
      (∀ c ∈ foreign.head?, isKnown c = false) →
      (known ++ foreign).takeWhile isKnown = known := by
    intro known foreign hknown hforeign
    rw [List.takeWhile_append_of_pos hknown]
    cases foreign with
    | nil => simp
    | cons c foreign => simp [hforeign c rfl]
  have heq : front = more := by rw [← htake hfront hleft, h, htake hmore hrest]
  subst heq
  exact ⟨rfl, List.append_cancel_left h⟩

-- The tokens of a text stand in it.
theorem laidOut_of_tokenize {source : String} {log : Log} {tokens : List Token}
    (h : (TinyC.tokenize source log).1 = .ok tokens) : LaidOut [] source.toList tokens :=
  ((isExact_ofSource source).run (fun _ => true) log).laidOut_of_ok (isCut_scan _ _ _ _) h

-- The text up to the first foreign character is cut into tokens, and the rest is left.
theorem tokenize_known_front (source : String) (log : Log) {front left : List Char}
    (hsource : source.toList = front ++ left) (hfront : ∀ c ∈ front, isKnown c)
    (hleft : ∀ c ∈ left.head?, isKnown c = false) :
    ∃ lexer after, (ofSource source).tokenize log =
        (if left.isEmpty then .ok lexer.held else .error ⟨left, .behind front⟩, lexer, after) ∧
      lexer.offset = front.length ∧ LaidOut [] front lexer.held := by
  have hrun := (isExact_ofSource source).run (fun _ => true) log
  have hcut : ((ofSource source).run (fun _ => true) log).1.isCut = false := isCut_scan _ _ _ _
  generalize htokenize : (ofSource source).tokenize log = outcome
  simp only [tokenize] at htokenize
  generalize (ofSource source).run (fun _ => true) log = ran at hrun hcut htokenize
  obtain ⟨scan, next⟩ := ran
  subst htokenize
  obtain ⟨consumed, lost, hahead, hlaid, hlost⟩ := hrun.exists_layout
  rw [hlost hcut, List.append_nil] at hlaid
  have hpassed : next.passed = consumed := hrun.passed_eq hahead
  have hsplit : consumed ++ next.ahead = front ++ left := hahead.symm.trans hsource
  obtain ⟨rfl, rfl⟩ :=
    split_known hlaid.isKnown (hrun.isKnown_ahead hcut) hfront hleft hsplit
  refine ⟨next, scan.log, ?_, ?_, hlaid⟩
  · rw [hrun.result_eq, hpassed]
  · rw [← hrun.cursor.length_passed, hpassed]

-- A text over the alphabet is cut into tokens, which together are all of it but its blanks. Any
-- other text is cut so up to its first foreign character, where the cursor then stands.
theorem tokenize_accepts_alphabet (source : String) (log : Log) :
    ((∀ c ∈ source.toList, isKnown c) →
      ∃ tokens lexer after, (ofSource source).tokenize log = (.ok tokens, lexer, after) ∧
        LaidOut [] source.toList tokens ∧
        tokens.flatMap Token.text = source.toList.filter fun c => !isBlank c) ∧
    ∀ front c rest, source.toList = front ++ c :: rest → (∀ d ∈ front, isKnown d) →
      isKnown c = false →
      ∃ lexer after, (ofSource source).tokenize log =
          (.error ⟨c :: rest, .behind front⟩, lexer, after) ∧
        lexer.offset = front.length ∧ LaidOut [] front lexer.held ∧
        lexer.held.flatMap Token.text = front.filter fun c => !isBlank c := by
  constructor
  · intro hknown
    obtain ⟨lexer, after, htokenize, _, hlaid⟩ :=
      tokenize_known_front source log (List.append_nil _).symm hknown (by simp)
    exact ⟨lexer.held, lexer, after, htokenize, hlaid, hlaid.flatMap_text⟩
  · intro front c rest hsource hfront hforeign
    have hleft : ∀ d ∈ (c :: rest).head?, isKnown d = false := by
      intro d hd
      cases hd
      exact hforeign
    obtain ⟨lexer, after, htokenize, hoffset, hlaid⟩ :=
      tokenize_known_front source log hsource hfront hleft
    exact ⟨lexer, after, htokenize, hoffset, hlaid, hlaid.flatMap_text⟩

-- The blank and both tokens of one text are read, and another is read up to its third character.
theorem tokenize_accepts_alphabet_literals :
    (∀ c ∈ "1 a".toList, isKnown c) ∧
      (∃ tokens lexer after, (ofSource "1 a").tokenize .silent = (.ok tokens, lexer, after) ∧
        LaidOut [] "1 a".toList tokens ∧
        tokens.flatMap Token.text = "1 a".toList.filter fun c => !isBlank c) ∧
      "1\n_".toList = ['1', '\n'] ++ '_' :: [] ∧ (∀ d ∈ ['1', '\n'], isKnown d) ∧
      isKnown '_' = false ∧
      ∃ lexer after, (ofSource "1\n_").tokenize .silent =
          (.error ⟨['_'], .behind ['1', '\n']⟩, lexer, after) ∧
        lexer.offset = 2 ∧ LaidOut [] ['1', '\n'] lexer.held ∧
        lexer.held.flatMap Token.text = ['1', '\n'].filter fun c => !isBlank c := by
  have hknown : ∀ c ∈ "1 a".toList, isKnown c := by simp; decide
  have hfront : ∀ d ∈ ['1', '\n'], isKnown d := by simp; decide
  have hforeign : isKnown '_' = false := by decide
  have hsource : "1\n_".toList = ['1', '\n'] ++ '_' :: [] := by simp
  exact ⟨hknown, (tokenize_accepts_alphabet "1 a" .silent).1 hknown, hsource, hfront, hforeign,
    (tokenize_accepts_alphabet "1\n_" .silent).2 _ _ _ hsource hfront hforeign⟩

-- What a lexer becomes that starts on a text, as it is read and as its text grows.
inductive Used : Lexer → Prop
  | fresh (source : String) : Used (ofSource source)
  | feed {lexer : Lexer} (text : String) : Used lexer → Used (lexer.feed text)
  | tokenize {lexer : Lexer} (log : Log) : Used lexer → Used (lexer.resume log).2.1

-- What a reading from the cursor of `lexer` reports, and what the lexer is then. The tokens are
-- those of the text ahead, each at its place, and an error tells where the text is that is left.
structure Reports (lexer : Lexer) (result : Except Fault (List Token)) (next : Lexer) : Prop where
  held : ∃ front, front <+: lexer.ahead ∧ LaidOut lexer.passed front next.held
  tokens : ∀ tokens, result = .ok tokens → LaidOut lexer.passed lexer.ahead tokens
  unmatched : ∀ error, result = .error (.unmatched error) →
    error.remaining = next.ahead ∧ error.remaining ≠ [] ∧ error.place = .behind next.passed

theorem RunsTo.reports {lexer next : Lexer} {scan : Scan} (h : RunsTo lexer next scan) :
    Reports lexer (if scan.isCut then .error (.badNumeral .tooLong)
      else scan.result.mapError .unmatched) next := by
  obtain ⟨consumed, lost, hahead, hlaid, _⟩ := h.exists_layout
  obtain ⟨front, hfront, hheld⟩ := hlaid.of_append
  refine ⟨⟨front, hfront.trans ⟨next.ahead, hahead.symm⟩, hheld⟩, ?_, ?_⟩
  · intro tokens htokens
    split at htokens
    · cases htokens
    · next hcut =>
      cases hresult : scan.result with
      | error error =>
        rw [hresult] at htokens
        cases htokens
      | ok found =>
        rw [hresult] at htokens
        cases htokens
        exact h.laidOut_of_ok (Bool.not_eq_true _ ▸ hcut) hresult
  · intro error herror
    split at herror
    · cases herror
    · cases hresult : scan.result with
      | ok found =>
        rw [hresult] at herror
        cases herror
      | error found =>
        rw [hresult] at herror
        cases herror
        exact h.of_error hresult

-- The cursor stays exact over a reading, and what that reports is exact too.
theorem IsExact.resume {lexer : Lexer} (h : lexer.IsExact) (log : Log) :
    (lexer.resume log).2.1.IsExact ∧
      Reports lexer (lexer.resume log).1 (lexer.resume log).2.1 := by
  simp only [Lexer.resume]
  split
  · have hrun := h.run (fun token => log.isSilent || token.place.isWritable) log
    exact ⟨hrun.cursor, hrun.reports⟩
  · refine ⟨⟨h.nonneg, h.within, h.place⟩, ⟨[], List.nil_prefix, .nil _⟩, ?_, ?_⟩
    · intro tokens htokens
      cases htokens
    · intro error herror
      cases herror

theorem Used.isExact {lexer : Lexer} (h : Used lexer) : lexer.IsExact := by
  induction h with
  | fresh source => exact isExact_ofSource source
  | feed text _ ih => exact ih.feed text
  | tokenize log _ ih => exact (ih.resume log).1

end TinyC.Lexer
