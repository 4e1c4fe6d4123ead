import TinyC.File.Tree
import TinyC.Proofs.File.Path

namespace TinyC.FileTree

variable {tree written : FileTree} {current place other final : Location} {path otherPath : String}
  {parts : List String} {bytes text : List UInt8} {entry : Entry} {error : FileError}

theorem lookup_filter_ne (entries : List (Location × Entry)) (h : other ≠ place) :
    (entries.filter fun old => old.1 != place).lookup other = entries.lookup other := by
  induction entries with
  | nil => rfl
  | cons first rest ih =>
    obtain ⟨key, value⟩ := first
    by_cases hkey : key = place
    · subst hkey
      rw [List.filter_cons_of_neg (by simp), ih, List.lookup_cons, beq_eq_false_iff_ne.mpr h]
    · rw [List.filter_cons_of_pos (by simpa using hkey), List.lookup_cons, List.lookup_cons, ih]

theorem entry?_put_self (tree : FileTree) (entry : Entry) (h : place ≠ []) :
    entry? (tree.put place entry) place = some entry := by
  simp [put, entry?, if_neg h]

theorem entry?_put_of_ne (tree : FileTree) (entry : Entry) (h : other ≠ place) :
    entry? (tree.put place entry) other = tree.entry? other := by
  simp only [put, entry?, List.lookup_cons, beq_eq_false_iff_ne.mpr h, lookup_filter_ne _ h]

-- A walk ends at the place that its parts spell.
theorem walk_eq_ok (h : tree.walk place parts = .ok final) :
    final = parts.foldl Path.step place := by
  induction parts generalizing place with
  | nil =>
    cases h
    rfl
  | cons part rest ih =>
    rw [walk] at h
    split at h
    · cases h
    · cases h
    · split at h
      · cases h
      · exact ih h

-- A walk goes through directories only, so a change of another entry does not stop it.
theorem walk_put (hplace : tree.entry? place ≠ some .directory)
    (h : tree.walk other parts = .ok final) (entry : Entry) :
    (tree.put place entry).walk other parts = .ok final := by
  induction parts generalizing other with
  | nil => exact h
  | cons part rest ih =>
    rw [walk] at h
    split at h
    · cases h
    · cases h
    · next hdirectory =>
      split at h
      · cases h
      · next hshort =>
        have hne : other ≠ place := by
          rintro rfl
          exact hplace hdirectory
        rw [walk, entry?_put_of_ne tree entry hne, hdirectory]
        simp only [if_neg hshort]
        exact ih h

theorem locate_eq_ok_iff : tree.locate current path = .ok place ↔
    '\x00' ∉ path.toList ∧ path ≠ "" ∧ ¬ pathLimit ≤ path.utf8ByteSize ∧
      tree.walk (Path.origin current path) (Path.parts path) = .ok place := by
  unfold locate
  by_cases hnull : '\x00' ∈ path.toList
  · simp [hnull]
  by_cases hempty : path = ""
  · simp [hempty]
  by_cases hlong : pathLimit ≤ path.utf8ByteSize
  · simp [hnull, hempty, hlong]
  · simp [hnull, hempty, hlong]

-- A path that leads somewhere leads to the place that it denotes.
theorem locate_eq_ok (h : tree.locate current path = .ok place) :
    '\x00' ∉ path.toList ∧ place = Path.resolve current path := by
  obtain ⟨hnull, _, _, hwalk⟩ := locate_eq_ok_iff.mp h
  exact ⟨hnull, walk_eq_ok hwalk⟩

theorem locate_put (hplace : tree.entry? place ≠ some .directory)
    (h : tree.locate current path = .ok other) (entry : Entry) :
    (tree.put place entry).locate current path = .ok other := by
  obtain ⟨hnull, hempty, hshort, hwalk⟩ := locate_eq_ok_iff.mp h
  exact locate_eq_ok_iff.mpr ⟨hnull, hempty, hshort, walk_put hplace hwalk entry⟩

-- What is read is the file at the place that the path denotes.
theorem read_eq_ok_iff : tree.read current path = .ok bytes ↔
    ∃ place, tree.locate current path = .ok place ∧ tree.entry? place = some (.file bytes) := by
  unfold read
  cases hlocate : tree.locate current path with
  | error fault => simp
  | ok place =>
    cases hentry : tree.entry? place with
    | none => simp [hentry]
    | some entry => cases entry <;> simp [hentry]

theorem not_mem_null_of_read (h : tree.read current path = .ok bytes) : '\x00' ∉ path.toList := by
  obtain ⟨_, hlocate, _⟩ := read_eq_ok_iff.mp h
  exact (locate_eq_ok hlocate).1

theorem walk_ne_nullInPath (tree : FileTree) (place : Location) (parts : List String) :
    tree.walk place parts ≠ .error .nullInPath := by
  induction parts generalizing place with
  | nil => simp [walk]
  | cons part rest ih =>
    rw [walk]
    split
    · simp
    · simp
    · split
      · simp
      · exact ih _

theorem locate_eq_nullInPath_iff (tree : FileTree) (current : Location) :
    tree.locate current path = .error .nullInPath ↔ '\x00' ∈ path.toList := by
  unfold locate
  by_cases hnull : '\x00' ∈ path.toList
  · simp [hnull]
  by_cases hempty : path = ""
  · simp [hempty]
  by_cases hlong : pathLimit ≤ path.utf8ByteSize
  · simp [hnull, hempty, hlong]
  · simp [hnull, hempty, hlong, walk_ne_nullInPath]

-- A path is refused for a NUL if and only if it has one.
theorem read_error_nullInPath_iff (h : tree.read current path = .error error) :
    error.fault = .nullInPath ↔ '\x00' ∈ path.toList := by
  unfold read at h
  cases hlocate : tree.locate current path with
  | error fault =>
    rw [hlocate] at h
    cases h
    rw [← locate_eq_nullInPath_iff tree current, hlocate, Except.error.injEq]
  | ok place =>
    have hnull := (locate_eq_ok hlocate).1
    simp only [hlocate] at h
    cases hentry : tree.entry? place with
    | none =>
      rw [hentry] at h
      cases h
      simp [hnull]
    | some entry =>
      rw [hentry] at h
      cases entry <;> cases h
      simp [hnull]

-- A file is written at the place that the path denotes, and nothing else changes.
theorem write_eq_ok (h : tree.write current path text = .ok written) :
    let place := Path.resolve current path
    tree.locate current path = .ok place ∧ tree.entry? place ≠ some .directory ∧
      written = tree.put place (.file text) := by
  unfold write at h
  cases hlocate : tree.locate current path with
  | error fault =>
    rw [hlocate] at h
    cases h
  | ok place =>
    obtain rfl := (locate_eq_ok hlocate).2
    rw [hlocate] at h
    dsimp only at h
    split at h
    · cases h
    · next hplace =>
      cases h
      exact ⟨rfl, hplace, rfl⟩

theorem entry?_write_self (h : tree.write current path text = .ok written) :
    written.entry? (Path.resolve current path) = some (.file text) := by
  obtain ⟨_, hplace, rfl⟩ := write_eq_ok h
  refine entry?_put_self tree _ ?_
  intro hroot
  exact hplace (by rw [hroot, entry?, if_pos rfl])

theorem entry?_write_of_ne (h : tree.write current path text = .ok written)
    (hne : other ≠ Path.resolve current path) : written.entry? other = tree.entry? other := by
  obtain ⟨_, _, rfl⟩ := write_eq_ok h
  exact entry?_put_of_ne tree _ hne

-- A file that can be read is read alike after another one has been written.
theorem read_write_of_ne (h : tree.write current path text = .ok written)
    (hne : Path.resolve current otherPath ≠ Path.resolve current path)
    (hread : tree.read current otherPath = .ok bytes) :
    written.read current otherPath = .ok bytes := by
  obtain ⟨_, hplace, hwritten⟩ := write_eq_ok h
  obtain ⟨place, hlocate, hentry⟩ := read_eq_ok_iff.mp hread
  obtain rfl := (locate_eq_ok hlocate).2
  rw [← entry?_write_of_ne h hne] at hentry
  rw [hwritten] at hentry ⊢
  exact read_eq_ok_iff.mpr ⟨_, locate_put hplace hlocate _, hentry⟩

end TinyC.FileTree
