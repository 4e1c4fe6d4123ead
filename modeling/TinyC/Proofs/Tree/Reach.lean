import TinyC.Proofs.Tree.Prefix

namespace TinyC.Parser

-- Some program has a literal of this terminal behind the tokens.
def TakesLiteral (limit : Int) (front : List Token) (terminal : Terminal) : Prop :=
  ∃ other more, other.terminal = terminal ∧ Accepts limit .silent (front ++ other :: more)

-- The first literal that cannot be read is a decimal one of `count` digits, which are too many.
def MeetsLongLiteral (limit : Int) (tokens : List Token) (count : Nat) : Prop :=
  ∃ front literal rest digits, tokens = front ++ literal :: rest ∧
    literal.HasDigits .ten digits ∧ digits.length = count ∧ Numeral.digitLimit < count ∧
    TakesLiteral limit front .decimal

variable {limit : Int} {depth : Nat} {log : Log} {site : Site} {front rest tokens : List Token}
  {literal : Token} {base : Numeral.Base} {stop : Stop}

-- A literal is refused for what its text says, or else with all others of its terminal.
theorem Refuses.of_literal (h : Refuses limit depth site (literal :: rest) stop)
    (hbase : literal.terminal.base? = some base) :
    literalValue base literal = .error stop.error ∨
      ∀ other : Token, other.terminal = literal.terminal →
        ∀ rest, ∃ stop, Refuses limit depth site (other :: rest) stop := by
  cases h with
  | unexpected hother =>
    refine .inr fun other hterminal rest => ⟨_, .unexpected ?_⟩
    intro token htoken
    cases htoken
    rw [hterminal]
    exact hother literal rfl
  | unclosed hcloses hother =>
    refine .inr fun other hterminal rest => ⟨_, .unclosed ?_ ?_⟩
    · intro tier token htoken
      cases htoken
      rw [hterminal]
      exact hcloses tier literal rfl
    · intro token htoken
      cases htoken
      rw [hterminal]
      exact hother literal rfl
  | noFactor hother =>
    obtain ⟨_, hnone⟩ := hother literal rfl
    rw [hbase] at hnone
    cases hnone
  | tooDeep hopens _ =>
    rw [hopens.base?_eq_none] at hbase
    cases hbase
  | badLiteral hother hvalue =>
    cases hbase.symm.trans hother
    exact .inl hvalue
  | trailing => exact .inr fun other _ rest => ⟨_, .trailing⟩

-- A cut of the tokens is before a token of theirs, at it, or behind it.
theorem append_eq_append_cons {first last : List Token}
    (h : first ++ last = front ++ literal :: rest) :
    (∃ token more, front = first ++ token :: more ∧ last = token :: (more ++ literal :: rest)) ∨
      (first = front ∧ last = literal :: rest) ∨ ∃ more, first = front ++ literal :: more := by
  rcases List.append_eq_append_iff.mp h with ⟨middle, rfl, rfl⟩ | ⟨middle, rfl, hlast⟩
  · cases middle with
    | nil => exact .inr (.inl ⟨by simp, rfl⟩)
    | cons token more => exact .inl ⟨token, more, rfl, rfl⟩
  · cases middle with
    | nil => exact .inr (.inl ⟨by simp, hlast.symm⟩)
    | cons token more =>
      cases hlast
      exact .inr (.inr ⟨more, rfl⟩)

-- Where a literal is taken, it is refused for what its text says, or else a program goes on
-- behind it: a stop before it would also stop the program that takes a literal there.
theorem Follows.of_literal
    (h : Follows limit 0 programPieces (front ++ literal :: rest) (.error stop))
    (htakes : TakesLiteral limit front literal.terminal)
    (hbase : literal.terminal.base? = some base) :
    literalValue base literal = .error stop.error ∨
      ∃ more, Accepts limit .silent (front ++ literal :: more) := by
  obtain ⟨other, after, hother, haccepts⟩ := htakes
  generalize htokens : front ++ literal :: rest = tokens at h
  cases h.stuck with
  | @intro site depth first last more stop hrefuses hfails _ _ hcompletes =>
    rcases append_eq_append_cons htokens.symm with
      ⟨token, middle, rfl, rfl⟩ | ⟨rfl, rfl⟩ | ⟨middle, rfl⟩
    · obtain ⟨stop, hstop⟩ := hrefuses.head (middle ++ other :: after)
      rw [List.append_assoc] at haccepts
      exact absurd haccepts (hfails _ stop hstop).not_accepts
    · rcases hrefuses.of_literal hbase with hvalue | hall
      · exact .inl hvalue
      · obtain ⟨stop, hstop⟩ := hall other hother after
        exact absurd haccepts (hfails _ stop hstop).not_accepts
    · have hfollows := hcompletes [] rfl
      rw [List.append_nil, List.append_assoc] at hfollows
      exact .inr ⟨middle ++ more, accepts_iff.mpr hfollows⟩

theorem accepts_or_follows (limit : Int) (tokens : List Token) (log : Log) :
    Accepts limit log tokens ∨ ∃ stop, Follows limit 0 programPieces tokens (.error stop) ∧
      (parse tokens limit log).1 = .error stop.error := by
  cases hread : (Session.ofTokens tokens limit).read .program log with
  | mk result next =>
    obtain ⟨session, after⟩ := next
    have hparse : (parse tokens limit log).1 = result := by rw [parse, hread]
    cases result with
    | ok tree => exact .inl ⟨tree, hparse⟩
    | error error =>
      obtain ⟨stop, hfollows, rfl, _⟩ := of_read_error hread
      exact .inr ⟨stop, hfollows, hparse⟩

-- No program has a literal that cannot be read.
theorem not_accepts_of_undecodable {error : ParseError}
    (hbase : literal.terminal.base? = some base)
    (hvalue : literalValue base literal = .error error) :
    ¬ Accepts limit log (front ++ literal :: rest) := by
  rintro ⟨tree, htree⟩
  have hmem : literal ∈ front ++ literal :: rest := by simp
  obtain ⟨value, other, hother, hdecoded⟩ := (derives_of_parse htree).1.denotes_of_mem hmem hbase
  cases hbase.symm.trans hother
  rw [hvalue] at hdecoded
  cases hdecoded

-- Where a literal is taken, one that cannot be read is the error.
theorem parse_of_takesLiteral (htakes : TakesLiteral limit front literal.terminal)
    (hbase : literal.terminal.base? = some base) {error : ParseError}
    (hvalue : literalValue base literal = .error error) (rest : List Token) (log : Log) :
    (parse (front ++ literal :: rest) limit log).1 = .error error := by
  rcases accepts_or_follows limit (front ++ literal :: rest) log with
    haccepts | ⟨stop, hstop, hparse⟩
  · exact absurd haccepts (not_accepts_of_undecodable hbase hvalue)
  · rcases hstop.of_literal htakes hbase with hother | ⟨more, haccepts⟩
    · rw [hvalue] at hother
      rw [hparse, ← Except.error.inj hother]
    · exact absurd haccepts (not_accepts_of_undecodable hbase hvalue)

-- Where a literal is taken, one that can be read is accepted.
theorem accepts_of_takesLiteral (htakes : TakesLiteral limit front literal.terminal)
    (hbase : literal.terminal.base? = some base) {value : Int}
    (hvalue : literalValue base literal = .ok value) :
    ∃ more, Accepts limit .silent (front ++ literal :: more) := by
  rcases accepts_or_follows limit (front ++ [literal]) .silent with haccepts | ⟨stop, hstop, _⟩
  · exact ⟨[], haccepts⟩
  · rcases hstop.of_literal htakes hbase with hother | haccepts
    · rw [hvalue] at hother
      cases hother
    · exact haccepts

theorem MeetsLongLiteral.parse {count : Nat} (h : MeetsLongLiteral limit tokens count) (log : Log) :
    (parse tokens limit log).1 = .error (.badNumeral (.tooManyDigits count)) := by
  obtain ⟨front, literal, rest, digits, rfl, hdigits, rfl, hlong, htakes⟩ := h
  have hvalue : literalValue .ten literal =
      .error (.badNumeral (.tooManyDigits digits.length)) := by
    rw [literalValue_of_hasDigits hdigits, if_pos ⟨rfl, hlong⟩]
  rw [← hdigits.2.2.1] at htakes
  exact parse_of_takesLiteral htakes hdigits.base?_eq hvalue rest log

-- What is no program has a reported error, unless the parser comes to a literal of too many
-- digits.
theorem reported_or_meetsLongLiteral (hspelled : ∀ token ∈ tokens, token.IsSpelled)
    {error : ParseError} (h : (parse tokens limit log).1 = .error error) :
    error.IsReported ∨ ∃ count, MeetsLongLiteral limit tokens count := by
  rcases accepts_or_follows limit tokens log with ⟨tree, htree⟩ | ⟨stop, hstop, hparse⟩
  · rw [h] at htree
    cases htree
  · cases h.symm.trans hparse
    cases hstop.stuck with
    | @intro site depth front rest more stop hrefuses hfails _ hfactor hcompletes =>
      cases rest with
      | nil => exact .inl hrefuses.of_nil.1
      | cons token rest =>
        rcases hrefuses.of_cons (hspelled token (by simp)) with
          ⟨hreported, _⟩ | ⟨digits, hdigits, hlong, rfl⟩
        · exact .inl hreported
        · obtain ⟨others, rfl⟩ := List.head?_eq_some_iff.mp (hfactor rfl)
          have hfollows := hcompletes [] rfl
          rw [List.append_nil] at hfollows
          exact .inr ⟨digits.length, front, token, rest, digits, rfl, hdigits, rfl, hlong,
            sample .decimal, others, rfl, accepts_iff.mpr hfollows⟩

end TinyC.Parser
