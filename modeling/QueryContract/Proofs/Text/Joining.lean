import Mathlib.Data.List.DropRight
import QueryContract.Proofs.Text.Trimming

/-!
Lines joined by line feeds and then trimmed at the end. If each line is trimmed already, all that is
lost is the empty lines that stand last.
-/

namespace QueryContract.Text

theorem trimEnd_eq_rdropWhile (text : List Char) : trimEnd text = text.rdropWhile isBlank := rfl

theorem trimEnd_append_of_ne_nil {text : List Char} (before : List Char) (h : text ≠ [])
    (trimmed : trimEnd text = text) : trimEnd (before ++ text) = before ++ text := by
  rw [trimEnd_eq_rdropWhile, List.rdropWhile_eq_self_iff] at trimmed ⊢
  intro nonempty
  rw [List.getLast_append_of_ne_nil nonempty h]
  exact trimmed h

theorem trim_append_of_isBlank {blanks : List Char} (blank : ∀ c ∈ blanks, isBlank c = true)
    (text : List Char) : trim (text ++ blanks) = trim text := by
  induction blanks using List.reverseRecOn with
  | nil => rw [List.append_nil]
  | append_singleton before c ih =>
    rw [← List.append_assoc, trim_concat_of_isBlank (blank c (by simp))]
    exact ih fun other member => blank other (List.mem_append_left _ member)

theorem trim_trimEnd (text : List Char) : trim (trimEnd text) = trim text := by
  have parts : trimEnd text ++ text.rtakeWhile isBlank = text :=
    List.rdropWhile_append_rtakeWhile
  have blank : ∀ c ∈ text.rtakeWhile isBlank, isBlank c = true := fun c member =>
    List.mem_rtakeWhile_imp member
  rw [← trim_append_of_isBlank blank, parts]

theorem trimEnd_trimEnd (text : List Char) : trimEnd (trimEnd text) = trimEnd text :=
  List.rdropWhile_idempotent isBlank text

theorem intercalate_cons {α : Type} (separator first : List α) (rest : List (List α)) :
    separator.intercalate (first :: rest) = first ++ rest.flatMap (separator ++ ·) := by
  induction rest generalizing first with
  | nil => simp [List.intercalate]
  | cons second others ih =>
    rw [List.intercalate_cons_cons, ih, List.flatMap_cons, List.append_assoc, List.append_assoc]

theorem intercalate_concat {α : Type} (separator last : List α) {before : List (List α)}
    (h : before ≠ []) : separator.intercalate (before ++ [last]) =
      separator.intercalate before ++ separator ++ last := by
  induction before with
  | nil => exact absurd rfl h
  | cons first rest ih =>
    cases rest with
    | nil => simp [List.intercalate]
    | cons second others =>
      have later := ih (List.cons_ne_nil second others)
      rw [List.cons_append] at later
      rw [List.cons_append, List.cons_append, List.intercalate_cons_cons, later,
        List.intercalate_cons_cons]
      simp only [List.append_assoc]

section Lines

variable {lines : List (List Char)}

theorem trimEnd_intercalate (trimmed : ∀ line ∈ lines, trimEnd line = line) :
    trimEnd (['\n'].intercalate lines) = ['\n'].intercalate (lines.rdropWhile List.isEmpty) := by
  induction lines using List.reverseRecOn with
  | nil => rfl
  | append_singleton before last ih =>
    obtain ⟨earlier, ended⟩ := List.forall_mem_append.mp trimmed
    by_cases empty : last = []
    · subst empty
      rw [List.rdropWhile_concat_pos _ _ _ rfl, ← ih earlier]
      by_cases first : before = []
      · subst first
        rfl
      · rw [intercalate_concat _ _ first, List.append_nil]
        exact trimEnd_concat_of_isBlank (by decide) _
    · rw [List.rdropWhile_concat_neg _ _ _ (by simpa using empty)]
      have lastTrimmed := ended last List.mem_cons_self
      by_cases first : before = []
      · subst first
        simpa [List.intercalate] using lastTrimmed
      · rw [intercalate_concat _ _ first]
        exact trimEnd_append_of_ne_nil _ empty lastTrimmed

/-- Split again, joined and trimmed lines are the lines up to the last one that is not empty. -/
theorem splitOn_trimEnd_intercalate (trimmed : ∀ line ∈ lines, trimEnd line = line)
    (unbroken : ∀ line ∈ lines, '\n' ∉ line) (nonempty : ∃ line ∈ lines, line ≠ []) :
    (trimEnd (['\n'].intercalate lines)).splitOn '\n' = lines.rdropWhile List.isEmpty := by
  rw [trimEnd_intercalate trimmed]
  apply List.splitOn_intercalate
  · exact fun line member => unbroken line ((List.rdropWhile_prefix _ _).subset member)
  · rw [Ne, List.rdropWhile_eq_nil_iff]
    obtain ⟨line, member, full⟩ := nonempty
    exact fun empty => full (List.isEmpty_iff.mp (empty line member))

end Lines

end QueryContract.Text
