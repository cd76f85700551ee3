import Mathlib.Data.List.Forall2
import QueryContract.Artifact.Style
import QueryContract.Proofs.Text.LineEnds

/-!
Blanks that reading disregards: those at the end of any line, and those on either side of a
directive. A carriage return before a line feed is such a blank.
-/

namespace QueryContract

open Text

theorem Line.ofText_trimEnd (text : List Char) : ofText (trimEnd text) = ofText text := by
  rw [ofText, ofText, trim_trimEnd, trimEnd_trimEnd]

theorem Line.ofText_trim {text : List Char} (marked : directiveMark <+: trim text) :
    ∃ body, trim text = directiveMark ++ body ∧
      ofText text = .directive (.ofBody (trimStart body)) := by
  obtain ⟨body, split⟩ := marked
  have found : directiveMark.isPrefixOf? (trim text) = some body :=
    List.isPrefixOf?_eq_some_iff_append_eq.mpr split
  exact ⟨body, split.symm, by rw [ofText, found]⟩

/-- Lines that differ in blanks at their end, or directives that differ in blanks around them. -/
def SameButBlanks (line other : List Char) : Prop :=
  trimEnd line = trimEnd other ∨
    Line.directiveMark <+: trim line ∧ Line.directiveMark <+: trim other ∧ trim line = trim other

theorem SameButBlanks.ofText_eq {line other : List Char} (h : SameButBlanks line other) :
    Line.ofText line = Line.ofText other := by
  rcases h with ended | ⟨marked, markedOther, trimmed⟩
  · rw [← Line.ofText_trimEnd, ended, Line.ofText_trimEnd]
  · obtain ⟨body, split, read⟩ := Line.ofText_trim marked
    obtain ⟨body', split', read'⟩ := Line.ofText_trim markedOther
    have same : body = body' := List.append_cancel_left (split.symm.trans (trimmed.trans split'))
    rw [read, read', same]

/-- Lines one after the other, each with the line break that ends it. -/
def brokenText (lines : List (String × LineBreak)) : String :=
  String.join (lines.map fun (line, lineBreak) => line ++ lineBreak.text)

namespace Document

theorem linesOf_eq_of_sameButBlanks {first second : String}
    (same : List.Forall₂ SameButBlanks (lines first.toList) (lines second.toList)) :
    linesOf first = linesOf second := by
  have read : List.Forall₂ (· = ·) (linesOf first) (linesOf second) := by
    rw [linesOf, linesOf, List.forall₂_map_left_iff, List.forall₂_map_right_iff]
    exact same.imp fun _ _ => SameButBlanks.ofText_eq
  rwa [List.forall₂_eq_eq_eq] at read

theorem linesOf_line {line : String} (unbroken : '\n' ∉ line.toList) (lineBreak : LineBreak) :
    linesOf (line ++ lineBreak.text) = [Line.ofText line.toList] := by
  have none : lines [] = [] := rfl
  have ended {piece : List Char} (unbroken : '\n' ∉ piece) :
      (lines (piece ++ '\n' :: [])).map Line.ofText = [Line.ofText piece] := by
    rw [lines_append_lineFeed, none, List.append_nil, List.splitOn_eq_singleton unbroken,
      List.map_singleton, List.map_singleton, Line.ofText_dropCarriageReturn]
  rw [linesOf, String.toList_append]
  cases lineBreak with
  | lf => exact ended unbroken
  | crlf =>
    have split : line.toList ++ LineBreak.crlf.text.toList =
        (line.toList ++ ['\r']) ++ '\n' :: [] := by simp [LineBreak.text]
    rw [split, ended (by simpa using unbroken), ← Line.ofText_trimEnd,
      trimEnd_concat_of_isBlank (by decide), Line.ofText_trimEnd]

theorem endsLine_line (line : String) (lineBreak : LineBreak) :
    endsLine (line ++ lineBreak.text) = true := by
  cases lineBreak <;> simp [endsLine, LineBreak.text]

theorem linesOf_brokenText {broken : List (String × LineBreak)}
    (unbroken : ∀ line ∈ broken, '\n' ∉ line.1.toList) (last : String) :
    linesOf (brokenText broken ++ last) =
      broken.map (fun line => Line.ofText line.1.toList) ++ linesOf last := by
  induction broken with
  | nil => simp [brokenText]
  | cons first rest ih =>
    obtain ⟨here, later⟩ := List.forall_mem_cons.mp unbroken
    have split : brokenText (first :: rest) ++ last =
        (first.1 ++ first.2.text) ++ (brokenText rest ++ last) := by
      simp [brokenText, String.join_cons, String.append_assoc]
    rw [split, linesOf_append (endsLine_line _ _), linesOf_line here, ih later]
    rfl

/-- Reading depends on lines up to blanks at their end, and on directives up to blanks around them.
    So it does not matter which line breaks end the lines. -/
theorem reading_disregards_blanks (path : Path) :
    (∀ first second : String,
      List.Forall₂ SameButBlanks (lines first.toList) (lines second.toList) →
        read path first = read path second) ∧
    ∀ (broken : List (String × LineBreak)) (last : String),
      (∀ line ∈ broken, '\n' ∉ line.1.toList) →
        read path (brokenText broken ++ last) =
          read path (brokenText (broken.map fun line => (line.1, .lf)) ++ last) := by
  constructor
  · intro first second same
    rw [read, read, linesOf_eq_of_sameButBlanks same]
  · intro broken last unbroken
    have unbrokenLf : ∀ line ∈ broken.map fun line => (line.1, LineBreak.lf),
        '\n' ∉ line.1.toList :=
      List.forall_mem_map.mpr unbroken
    rw [read, read, linesOf_brokenText unbroken, linesOf_brokenText unbrokenLf, List.map_map]
    rfl

def plainSpacing : String := "-- #\x7b a\n -- # :v int\nSELECT :v\n-- #\x7d"

/-- The same lines with blanks around the directives, after the query and at the end, and with mixed
    line breaks. -/
def looseSpacing : String := "\t-- #\x7b a \r\n-- # :v int\nSELECT :v \t\r\n  -- #\x7d\r\n"

theorem blanks_of_looseSpacing :
    List.Forall₂ SameButBlanks (lines plainSpacing.toList) (lines looseSpacing.toList) ∧
      read ⟨"q.sql"⟩ plainSpacing = read ⟨"q.sql"⟩ looseSpacing ∧
      (∀ line ∈ [("-- #\x7b a", LineBreak.crlf), ("SELECT 1", .lf)], '\n' ∉ line.1.toList) ∧
      read ⟨"q.sql"⟩ (brokenText [("-- #\x7b a", .crlf), ("SELECT 1", .lf)] ++ "-- #\x7d") =
        read ⟨"q.sql"⟩ (brokenText [("-- #\x7b a", .lf), ("SELECT 1", .lf)] ++ "-- #\x7d") := by
  have same : List.Forall₂ SameButBlanks (lines plainSpacing.toList) (lines looseSpacing.toList) := by
    have plain : lines plainSpacing.toList =
        ["-- #\x7b a".toList, " -- # :v int".toList, "SELECT :v".toList, "-- #\x7d".toList] := by
      decide +kernel
    have loose : lines looseSpacing.toList =
        ["\t-- #\x7b a ".toList, "-- # :v int".toList, "SELECT :v \t".toList,
          "  -- #\x7d".toList] := by
      decide +kernel
    have directive {line other : List Char} (marked : Line.directiveMark <+: trim line)
        (same : trim line = trim other) : SameButBlanks line other :=
      .inr ⟨marked, same ▸ marked, same⟩
    rw [plain, loose]
    exact .cons (directive (by decide +kernel) (by decide +kernel)) <|
      .cons (directive (by decide +kernel) (by decide +kernel)) <|
      .cons (.inl (by decide +kernel)) <|
      .cons (directive (by decide +kernel) (by decide +kernel)) .nil
  have unbroken : ∀ line ∈ [("-- #\x7b a", LineBreak.crlf), ("SELECT 1", .lf)],
      '\n' ∉ line.1.toList := by decide +kernel
  obtain ⟨blanks, breaks⟩ := reading_disregards_blanks ⟨"q.sql"⟩
  exact ⟨same, blanks _ _ same, unbroken, breaks _ "-- #\x7d" unbroken⟩

end Document

end QueryContract
