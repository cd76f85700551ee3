import QueryContract.Proofs.Text.Ascii
import QueryContract.Proofs.Text.Trimming

/-!
The parts of a variable line, told by how they make up the text and not by how it is read.
-/

namespace QueryContract

open Text

/-- The text is a name, blanks, a type and then nothing, or blanks and perhaps a default. -/
structure VariableLine.MakesUp (parts : VariableLine) (gap tail text : List Char) : Prop where
  text_eq : text = parts.name ++ gap ++ parts.type ++ tail
  name : isName parts.name = true
  gap_ne_nil : gap ≠ []
  gap_blank : ∀ c ∈ gap, isBlank c = true
  type_ne_nil : parts.type ≠ []
  type_solid : ∀ c ∈ parts.type, isBlank c = false
  tail_blank : ∀ c ∈ tail.head?, isBlank c = true
  default?_eq : parts.default? = if tail.all isBlank then none else some (trim tail)

theorem isBlank_eq_false_of_isNamePart {c : Char} (h : isNamePart c = true) :
    isBlank c = false :=
  namePart_cases (p := fun c => isBlank c = false) (by decide) h

theorem isBlank_eq_false_of_isName {name : List Char} (h : isName name = true) :
    ∀ c ∈ name, isBlank c = false := fun c member =>
  isBlank_eq_false_of_isNamePart (isNamePart_of_isName h c member)

section Runs

variable {α : Type} {p : α → Bool} {before after : List α}

theorem takeWhile_append_of_stop (all : ∀ c ∈ before, p c = true)
    (stop : ∀ c ∈ after.head?, p c = false) : (before ++ after).takeWhile p = before := by
  rw [List.takeWhile_append_of_pos all]
  cases after with
  | nil => simp
  | cons c rest => simp [stop c rfl]

theorem dropWhile_append_of_stop (all : ∀ c ∈ before, p c = true)
    (stop : ∀ c ∈ after.head?, p c = false) : (before ++ after).dropWhile p = after := by
  rw [List.dropWhile_append_of_pos all]
  cases after with
  | nil => rfl
  | cons c rest => simp [stop c rfl]

theorem head?_dropWhile_eq_false (p : Char → Bool) (text : List Char) :
    ∀ c ∈ (text.dropWhile p).head?, p c = false := by
  intro c head
  have stops := List.head?_dropWhile_not p text
  rw [head] at stops
  exact stops

theorem mem_of_mem_head?_append (h : before ≠ []) :
    ∀ c ∈ (before ++ after).head?, c ∈ before := by
  intro c head
  cases before with
  | nil => exact absurd rfl h
  | cons first rest =>
    cases head
    exact List.mem_cons_self

end Runs

namespace VariableLine

theorem isEmpty_trim (text : List Char) : (trim text).isEmpty = text.all isBlank := by
  rw [Bool.eq_iff_iff, List.isEmpty_iff, trim_eq_nil_iff, List.all_eq_true]

theorem split?_of_makesUp {parts : VariableLine} {gap tail text : List Char}
    (h : parts.MakesUp gap tail text) : split? text = some parts := by
  have solidName : ∀ c ∈ parts.name, (!isBlank c) = true := fun c member => by
    rw [isBlank_eq_false_of_isName h.name c member]
    rfl
  have solidType : ∀ c ∈ parts.type, (!isBlank c) = true := fun c member => by
    rw [h.type_solid c member]
    rfl
  have atGap : ∀ c ∈ (gap ++ (parts.type ++ tail)).head?, (!isBlank c) = false := by
    intro c head
    rw [h.gap_blank c (mem_of_mem_head?_append h.gap_ne_nil c head)]
    rfl
  have atType : ∀ c ∈ (parts.type ++ tail).head?, isBlank c = false := by
    intro c head
    exact h.type_solid c (mem_of_mem_head?_append h.type_ne_nil c head)
  have atTail : ∀ c ∈ tail.head?, (!isBlank c) = false := fun c head => by
    rw [h.tail_blank c head]
    rfl
  have joined : text = parts.name ++ (gap ++ (parts.type ++ tail)) := by
    rw [h.text_eq, List.append_assoc, List.append_assoc]
  have afterName : trimStart (gap ++ (parts.type ++ tail)) = parts.type ++ tail :=
    dropWhile_append_of_stop h.gap_blank atType
  have noType : parts.type.isEmpty = false := List.isEmpty_eq_false_iff.mpr h.type_ne_nil
  rw [split?, joined]
  simp only [takeWhile_append_of_stop solidName atGap, dropWhile_append_of_stop solidName atGap,
    afterName, takeWhile_append_of_stop solidType atTail, dropWhile_append_of_stop solidType atTail,
    h.name, noType, isEmpty_trim, ← h.default?_eq]
  rfl

theorem makesUp_of_split? {parts : VariableLine} {text : List Char} (h : split? text = some parts) :
    ∃ gap tail, parts.MakesUp gap tail text := by
  rw [split?] at h
  split at h
  · cases h
  · rename_i valid
    rw [Bool.not_eq_true, Bool.or_eq_false_iff, Bool.not_eq_false'] at valid
    obtain ⟨name, noType⟩ := valid
    have type_ne_nil := List.isEmpty_eq_false_iff.mp noType
    cases h
    refine ⟨(text.dropWhile (!isBlank ·)).takeWhile isBlank,
      (trimStart (text.dropWhile (!isBlank ·))).dropWhile (!isBlank ·), ?_⟩
    have blank : ∀ {c : Char}, (!isBlank c) = false → isBlank c = true := fun h => by
      simpa using h
    have solid : ∀ {c : Char}, (!isBlank c) = true → isBlank c = false := fun h => by
      simpa using h
    constructor
    · simp only [trimStart, List.append_assoc, List.takeWhile_append_dropWhile]
    · exact name
    · intro noGap
      have atGap := head?_dropWhile_eq_false (fun c => !isBlank c) text
      cases rest : text.dropWhile (fun c => !isBlank c) with
      | nil =>
        rw [rest] at type_ne_nil
        exact type_ne_nil rfl
      | cons c later =>
        rw [rest] at noGap atGap
        rw [List.takeWhile_cons_of_pos (blank (atGap c rfl))] at noGap
        cases noGap
    · exact fun c member => List.mem_takeWhile_imp member
    · exact type_ne_nil
    · exact fun c member => solid (List.mem_takeWhile_imp (p := fun c => !isBlank c) member)
    · exact fun c head => blank (head?_dropWhile_eq_false _ _ c head)
    · rw [isEmpty_trim]

end VariableLine

end QueryContract
