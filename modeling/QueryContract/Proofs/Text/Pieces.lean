import Mathlib.Data.List.Forall2
import QueryContract.Path

/-!
The pieces of a split text, and of one that is joined. A path is split at its slashes, so its file
name has none.
-/

namespace QueryContract.Text

theorem mem_of_mem_splitOnP {α : Type} {separator : α → Bool} {text piece : List α}
    (h : piece ∈ text.splitOnP separator) {c : α} (member : c ∈ piece) :
    c ∈ text ∧ separator c = false := by
  induction text generalizing piece with
  | nil =>
    rw [List.splitOnP_nil, List.mem_singleton] at h
    rw [h] at member
    cases member
  | cons first rest ih =>
    rw [List.splitOnP_cons_eq_if_modifyHead] at h
    split at h
    · rcases List.mem_cons.mp h with rfl | later
      · cases member
      · exact ⟨List.mem_cons_of_mem _ (ih later member).1, (ih later member).2⟩
    · rename_i plain
      cases pieces : rest.splitOnP separator with
      | nil => exact absurd pieces (List.splitOnP_ne_nil separator rest)
      | cons head tail =>
        rw [pieces] at h ih
        rcases List.mem_cons.mp h with rfl | later
        · rcases List.mem_cons.mp member with rfl | inHead
          · exact ⟨List.mem_cons_self, Bool.not_eq_true _ ▸ plain⟩
          · have found := ih List.mem_cons_self inHead
            exact ⟨List.mem_cons_of_mem _ found.1, found.2⟩
        · have found := ih (List.mem_cons_of_mem _ later) member
          exact ⟨List.mem_cons_of_mem _ found.1, found.2⟩

theorem mem_of_mem_splitOn {α : Type} [BEq α] [LawfulBEq α] {separator : α} {text piece : List α}
    (h : piece ∈ text.splitOn separator) {c : α} (member : c ∈ piece) :
    c ∈ text ∧ c ≠ separator := by
  rw [List.splitOn_eq_splitOnP] at h
  have found := mem_of_mem_splitOnP h member
  exact ⟨found.1, by simpa using found.2⟩

theorem splitOn_append_separator {α : Type} [BEq α] [ReflBEq α] (separator : α)
    (before after : List α) : (before ++ separator :: after).splitOn separator =
      before.splitOn separator ++ after.splitOn separator := by
  simp only [List.splitOn_eq_splitOnP]
  exact List.splitOnP_append_cons before after (beq_self_eq_true separator)

theorem splitOnP_intercalate {α : Type} {p : α → Bool} {separator : α} (h : p separator = true)
    {parts : List (List α)} (some : parts ≠ []) (unbroken : ∀ part ∈ parts, ∀ c ∈ part, p c = false) :
    ([separator].intercalate parts).splitOnP p = parts := by
  induction parts with
  | nil => exact absurd rfl some
  | cons first rest ih =>
    obtain ⟨here, later⟩ := List.forall_mem_cons.mp unbroken
    cases rest with
    | nil => rw [List.intercalate_singleton, List.splitOnP_eq_singleton here]
    | cons second others =>
      rw [List.intercalate_cons_cons, List.append_assoc, List.singleton_append,
        List.splitOnP_append_cons_of_forall_mem here separator h, ih (List.cons_ne_nil _ _) later]

/-- It does not matter which of the separators stands in a place. -/
theorem splitOnP_congr {α : Type} {p : α → Bool} {left right : List α}
    (h : List.Forall₂ (fun c d => c = d ∨ p c = true ∧ p d = true) left right) :
    left.splitOnP p = right.splitOnP p := by
  induction h with
  | nil => rfl
  | cons same _ ih =>
    rw [List.splitOnP_cons_eq_if_modifyHead, List.splitOnP_cons_eq_if_modifyHead, ih]
    rcases same with rfl | ⟨left, right⟩
    · rfl
    · rw [if_pos left, if_pos right]

theorem eq_or_mem_of_mem_intersperse {α : Type} {separator part : α} {parts : List α}
    (h : part ∈ parts.intersperse separator) : part = separator ∨ part ∈ parts := by
  induction parts with
  | nil => cases h
  | cons first rest ih =>
    cases rest with
    | nil => exact .inr h
    | cons second others =>
      rw [List.intersperse_cons_cons] at h
      rcases List.mem_cons.mp h with rfl | h
      · exact .inr List.mem_cons_self
      rcases List.mem_cons.mp h with rfl | later
      · exact .inl rfl
      · exact (ih later).imp_right (List.mem_cons_of_mem _)

theorem mem_or_exists_of_mem_intercalate {α : Type} {separator : List α} {parts : List (List α)}
    {c : α} (h : c ∈ separator.intercalate parts) : c ∈ separator ∨ ∃ part ∈ parts, c ∈ part := by
  obtain ⟨part, member, found⟩ := List.mem_flatten.mp h
  rcases eq_or_mem_of_mem_intersperse member with rfl | member
  · exact .inl found
  · exact .inr ⟨part, member, found⟩

section Characters

variable {p : Char → Prop}

theorem forall_mem_append {left right : String} (hl : ∀ c ∈ left.toList, p c)
    (hr : ∀ c ∈ right.toList, p c) : ∀ c ∈ (left ++ right).toList, p c := by
  rw [String.toList_append]
  exact List.forall_mem_append.mpr ⟨hl, hr⟩

theorem forall_mem_intercalate {separator : String} {parts : List String}
    (hs : ∀ c ∈ separator.toList, p c) (h : ∀ part ∈ parts, ∀ c ∈ part.toList, p c) :
    ∀ c ∈ (separator.intercalate parts).toList, p c := by
  intro c member
  rw [String.toList_intercalate] at member
  rcases mem_or_exists_of_mem_intercalate member with between | ⟨part, found, inPart⟩
  · exact hs c between
  · obtain ⟨text, listed, rfl⟩ := List.mem_map.mp found
    exact h text listed c inPart

end Characters

end QueryContract.Text

namespace QueryContract.Path

theorem Component.eq_of_ofSegment? {segment text : String}
    (h : Component.ofSegment? segment = some (.name text)) : text = segment := by
  unfold Component.ofSegment? at h
  split at h
  · cases h
  split at h
  · cases h
  · cases h
    rfl

theorem mem_segments_of_mem_components {path : Path} {text : String}
    (h : .name text ∈ path.components) : text ∈ path.segments := by
  unfold components at h
  rcases List.mem_append.mp h with first | rest
  · -- a root or a dot at the front is no name
    split at first
    · cases List.mem_singleton.mp first
    split at first
    · cases List.mem_singleton.mp first
    · cases first
  · obtain ⟨segment, member, named⟩ := List.mem_filterMap.mp rest
    rw [Component.eq_of_ofSegment? named]
    exact member

theorem slash_not_mem_fileName {path : Path} {name : String} (h : path.fileName? = some name) :
    ∀ c ∈ name.toList, c ≠ '/' := by
  have segment : name ∈ path.segments := by
    unfold fileName? at h
    split at h
    · rename_i last
      cases h
      exact mem_segments_of_mem_components (List.mem_of_getLast? last)
    · cases h
  obtain ⟨piece, split, rfl⟩ := List.mem_map.mp segment
  intro c member
  rw [String.toList_ofList] at member
  exact (Text.mem_of_mem_splitOn split member).2

end QueryContract.Path
