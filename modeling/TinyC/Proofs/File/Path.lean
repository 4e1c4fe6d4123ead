import Mathlib.Logic.Basic
import TinyC.File.Path

namespace TinyC.Path

section Split

theorem split_eq_splitOn (text : List Char) : split text = text.splitOn '/' := by
  induction text with
  | nil => rfl
  | cons c rest ih =>
    rw [split, ih, List.splitOn_cons_eq_if_modifyHead]
    cases h : rest.splitOn '/' with
    | nil => exact absurd h (List.splitOn_ne_nil _ _)
    | cons part parts => simp

-- No part holds a slash, and its characters are those of the path.
theorem mem_of_mem_split {text part : List Char} (h : part ∈ split text) :
    ∀ c ∈ part, c ≠ '/' ∧ c ∈ text := by
  induction text generalizing part with
  | nil =>
    obtain rfl := List.mem_singleton.mp h
    simp
  | cons first rest ih =>
    rw [split] at h
    have hlater : part ∈ split rest → ∀ c ∈ part, c ≠ '/' ∧ c ∈ first :: rest :=
      fun hmem c hc => ⟨(ih hmem c hc).1, List.mem_cons_of_mem _ (ih hmem c hc).2⟩
    by_cases hslash : first = '/'
    · rw [if_pos hslash] at h
      rcases List.mem_cons.mp h with rfl | hmem
      · simp
      · exact hlater hmem
    · rw [if_neg hslash] at h
      have hfirst : first ≠ '/' ∧ first ∈ first :: rest := ⟨hslash, List.mem_cons_self⟩
      cases hparts : split rest with
      | nil =>
        rw [hparts] at h
        obtain rfl := List.mem_singleton.mp h
        simpa using hslash
      | cons head others =>
        rw [hparts] at h hlater
        rcases List.mem_cons.mp h with rfl | hmem
        · intro c hc
          rcases List.mem_cons.mp hc with rfl | hc
          · exact hfirst
          · have hhead : head ∈ split rest := by simp [hparts]
            have hin := ih hhead c hc
            exact ⟨hin.1, List.mem_cons_of_mem _ hin.2⟩
        · exact hlater (List.mem_cons_of_mem _ hmem)

theorem parts_slash (rest : String) : parts ("/" ++ rest) = "" :: parts rest := by
  have htext : ("/" ++ rest).toList = '/' :: rest.toList := by simp
  simp only [parts, htext, split, if_pos, List.map_cons, String.ofList_nil]

theorem parts_intercalate {names : List String} (hne : names ≠ [])
    (h : ∀ name ∈ names, '/' ∉ name.toList) : parts ("/".intercalate names) = names := by
  have hparts : names.map String.toList ≠ [] := by simpa using hne
  have hsplit := List.splitOn_intercalate '/' (by simpa using h) hparts
  rw [parts, split_eq_splitOn, String.toList_intercalate]
  have hslash : "/".toList = ['/'] := by decide
  rw [hslash, hsplit]
  simp

end Split

-- The parts of a path that lead anywhere.
def names (path : String) : List String :=
  (parts path).filter fun part => part != "" && part != "."

section Names

variable {path name : String}

theorem mem_names (h : name ∈ names path) :
    name ≠ "" ∧ name ≠ "." ∧ ∀ c ∈ name.toList, c ≠ '/' ∧ c ∈ path.toList := by
  obtain ⟨hmem, hleads⟩ := List.mem_filter.mp h
  simp only [Bool.and_eq_true, bne_iff_ne] at hleads
  obtain ⟨part, hpart, rfl⟩ := List.mem_map.mp hmem
  refine ⟨hleads.1, hleads.2, ?_⟩
  rw [String.toList_ofList]
  exact mem_of_mem_split hpart

theorem names_slash (rest : String) : names ("/" ++ rest) = names rest := by
  rw [names, parts_slash]
  rfl

theorem names_intercalate (path : String) : names ("/".intercalate (names path)) = names path := by
  by_cases hne : names path = []
  · rw [hne]
    decide
  · have hslash : ∀ name ∈ names path, '/' ∉ name.toList :=
      fun name hname hmem => ((mem_names hname).2.2 _ hmem).1 rfl
    rw [names, parts_intercalate hne hslash, names, List.filter_filter]
    simp only [Bool.and_self]

theorem foldl_step_names (place : Location) (path : String) :
    (names path).foldl step place = (parts path).foldl step place := by
  unfold names
  generalize parts path = all
  induction all generalizing place with
  | nil => rfl
  | cons part rest ih =>
    by_cases hleads : part = "" ∨ part = "."
    · have hstep : step place part = place := by rw [step, if_pos hleads]
      rw [List.filter_cons_of_neg (by simpa [or_iff_not_imp_left] using hleads), List.foldl_cons,
        hstep, ih]
    · rw [List.filter_cons_of_pos (by simpa using hleads), List.foldl_cons, List.foldl_cons, ih]

end Names

section Normal

variable (path : String)

theorem root_cases :
    (isAbsolute path = false ∧ root path = "") ∨
      (isAbsolute path = true ∧ (root path = "/" ∨ root path = "//")) := by
  unfold isAbsolute root
  cases path.toList with
  | nil => exact .inl ⟨rfl, rfl⟩
  | cons first rest =>
    by_cases hslash : first = '/'
    · right
      subst hslash
      refine ⟨rfl, ?_⟩
      simp only [List.takeWhile_cons, beq_self_eq_true, if_true, List.length_cons]
      split <;> simp_all
    · left
      simp [hslash]

theorem isAbsolute_slash (rest : String) : isAbsolute ("/" ++ rest) = true := by
  simp [isAbsolute]

theorem isAbsolute_intercalate_names : isAbsolute ("/".intercalate (names path)) = false := by
  cases h : names path with
  | nil => decide
  | cons name others =>
    have hname : name ∈ names path := by simp [h]
    obtain ⟨hne, _, hslash⟩ := mem_names hname
    cases htext : name.toList with
    | nil => exact absurd (String.toList_eq_nil_iff.mp htext) hne
    | cons first rest =>
      have hfirst := (hslash first (by simp [htext])).1
      cases others <;> simp [isAbsolute, String.toList_intercalate, List.intercalate, htext, hfirst]

-- The normal form begins where the path begins and has the same parts.
theorem normal_spec :
    names (normal path) = names path ∧ isAbsolute (normal path) = isAbsolute path := by
  have hjoined := names_intercalate path
  have hnormal : normal path = if root path ++ "/".intercalate (names path) = "" then "."
      else root path ++ "/".intercalate (names path) := rfl
  rcases root_cases path with ⟨hrelative, hroot⟩ | ⟨habsolute, hroot⟩
  · rw [hnormal, hroot, String.empty_append, hrelative]
    split
    · next hempty =>
      rw [hempty] at hjoined
      rw [← hjoined]
      decide
    · exact ⟨hjoined, isAbsolute_intercalate_names path⟩
  · have hslashes : ∃ rest, root path ++ "/".intercalate (names path) = "/" ++ rest ∧
        names rest = names path := by
      rcases hroot with hroot | hroot
      · exact ⟨_, by rw [hroot], hjoined⟩
      · refine ⟨"/" ++ "/".intercalate (names path), ?_, by rw [names_slash, hjoined]⟩
        rw [hroot, ← String.append_assoc]
        rfl
    obtain ⟨rest, htext, hnames⟩ := hslashes
    have hne : "/" ++ rest ≠ "" := by
      intro hempty
      have habsolute := isAbsolute_slash rest
      rw [hempty] at habsolute
      exact absurd habsolute (by decide)
    rw [hnormal, htext, if_neg hne, names_slash, isAbsolute_slash, habsolute]
    exact ⟨hnames, rfl⟩

-- A path and its normal form denote one place.
theorem resolve_normal (current : Location) :
    resolve current (normal path) = resolve current path := by
  obtain ⟨hnames, habsolute⟩ := normal_spec path
  rw [resolve, resolve, origin, origin, habsolute, ← foldl_step_names, ← foldl_step_names, hnames]

end Normal

-- A name without its extension is written with characters of the name.
theorem mem_of_mem_stem {path : String} {c : Char} (h : c ∈ (stem path).toList) :
    c ∈ path.toList := by
  simp only [stem] at h
  split at h
  · next before hbackwards =>
    split at h
    · rw [String.toList_ofList, List.mem_reverse] at h
      have hdropped := List.mem_cons_of_mem '.' h
      rw [← hbackwards] at hdropped
      exact List.mem_reverse.mp ((List.dropWhile_suffix _).subset hdropped)
    · exact h
  · exact h

end TinyC.Path
