import Mathlib.Data.List.TakeWhile
import QueryContract.Declaration.Line
import QueryContract.Text.Lines

/-!
Trimming at the end of a text, and lines whose carriage return is trimmed anyway.
-/

namespace QueryContract.Text

theorem trimEnd_concat_of_isBlank {c : Char} (blank : isBlank c = true) (text : List Char) :
    trimEnd (text ++ [c]) = trimEnd text := by
  rw [trimEnd, List.reverse_append, List.reverse_singleton, List.singleton_append, trimStart,
    List.dropWhile_cons_of_pos blank]
  rfl

theorem trim_concat_of_isBlank {c : Char} (blank : isBlank c = true) (text : List Char) :
    trim (text ++ [c]) = trim text := by
  rw [trim, trimStart, List.dropWhile_append]
  split
  · rename_i all
    have gone : [c].dropWhile isBlank = [] := List.dropWhile_cons_of_pos blank
    rw [gone, trim, trimStart, List.isEmpty_iff.mp all]
  · exact trimEnd_concat_of_isBlank blank _

theorem trimStart_eq_nil_iff (text : List Char) :
    trimStart text = [] ↔ ∀ c ∈ text, isBlank c = true :=
  List.dropWhile_eq_nil_iff

theorem trim_eq_nil_iff (text : List Char) : trim text = [] ↔ ∀ c ∈ text, isBlank c = true := by
  rw [trim, trimEnd, List.reverse_eq_nil_iff, trimStart_eq_nil_iff]
  constructor
  · intro blank
    rw [← trimStart_eq_nil_iff]
    cases start : trimStart text with
    | nil => rfl
    | cons c rest =>
      have solid : isBlank c = false := by
        have head := List.head?_dropWhile_not isBlank text
        rw [← trimStart, start] at head
        exact head
      rw [start] at blank
      have blankStart := blank c (by simp)
      rw [solid] at blankStart
      cases blankStart
  · intro blank
    rw [(trimStart_eq_nil_iff text).mpr blank]
    simp

theorem eq_dropCarriageReturn_or (line : List Char) :
    dropCarriageReturn line = line ∨ line = dropCarriageReturn line ++ ['\r'] := by
  rw [dropCarriageReturn]
  split
  · rename_i last
    obtain ⟨before, rfl⟩ := List.getLast?_eq_some_iff.mp last
    exact .inr (by rw [List.dropLast_concat])
  · exact .inl rfl

end QueryContract.Text

namespace QueryContract

open Text

theorem Line.ofText_dropCarriageReturn (line : List Char) :
    Line.ofText (dropCarriageReturn line) = Line.ofText line := by
  rcases eq_dropCarriageReturn_or line with same | ended
  · rw [same]
  · have blank : isBlank '\r' = true := by decide
    have trimmed : trim line = trim (dropCarriageReturn line) := by
      rw [congrArg trim ended, trim_concat_of_isBlank blank]
    have trimmedEnd : trimEnd line = trimEnd (dropCarriageReturn line) := by
      rw [congrArg trimEnd ended, trimEnd_concat_of_isBlank blank]
    rw [ofText, ofText, trimmed, trimmedEnd]

/-- Line feeds alone split a text: a carriage return before one is trimmed, and nothing after the
    last one is a comment. -/
theorem Line.map_ofText_terminated (piece : List Char) (rest : List (List Char)) :
    (piece :: rest).map ofText = (lines.terminated piece rest).map ofText ∨
      (piece :: rest).map ofText = (lines.terminated piece rest).map ofText ++ [.comment []] := by
  induction rest generalizing piece with
  | nil =>
    cases piece with
    | nil => exact .inr rfl
    | cons c others => exact .inl rfl
  | cons next rest ih =>
    have first := ofText_dropCarriageReturn piece
    rw [lines.terminated]
    rcases ih next with same | same
    · exact .inl (by rw [List.map_cons, same, List.map_cons, first])
    · exact .inr (by rw [List.map_cons, same, List.map_cons, first, List.cons_append])

end QueryContract
