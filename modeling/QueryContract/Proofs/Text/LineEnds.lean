import QueryContract.Declaration.Reader
import QueryContract.Proofs.Text.Joining
import QueryContract.Proofs.Text.Pieces

/-!
Texts put one after the other. When the first one ends with a line, the lines of both are its lines
and then the lines of the second one.
-/

namespace QueryContract

namespace Text

theorem terminated_append (piece next : List Char) (rest more : List (List Char)) :
    lines.terminated piece (rest ++ next :: more) =
      (piece :: rest).map dropCarriageReturn ++ lines.terminated next more := by
  induction rest generalizing piece with
  | nil => rfl
  | cons second rest ih =>
    rw [List.cons_append, lines.terminated, ih]
    rfl

theorem lines_append_lineFeed (before after : List Char) :
    lines (before ++ '\n' :: after) =
      (before.splitOn '\n').map dropCarriageReturn ++ lines after := by
  unfold lines
  rw [splitOn_append_separator]
  cases first : before.splitOn '\n' with
  | nil => exact absurd first (List.splitOn_ne_nil _ _)
  | cons piece rest =>
    cases second : after.splitOn '\n' with
    | nil => exact absurd second (List.splitOn_ne_nil _ _)
    | cons next more => exact terminated_append piece next rest more

end Text

/-- The text is empty, or its last line has a line feed. -/
def endsLine (text : String) : Bool := text.toList.getLast?.all (· == '\n')

/-- The text with a line feed after its last line. -/
def endLine (text : String) : String := if endsLine text then text else text ++ "\n"

theorem endsLine_cases {text : String} (h : endsLine text = true) :
    text.toList = [] ∨ ∃ before, text.toList = before ++ ['\n'] := by
  unfold endsLine at h
  cases last : text.toList.getLast? with
  | none => exact .inl (List.getLast?_eq_none_iff.mp last)
  | some c =>
    rw [last] at h
    obtain ⟨before, split⟩ := List.getLast?_eq_some_iff.mp last
    exact .inr ⟨before, (beq_iff_eq.mp h) ▸ split⟩

theorem endsLine_endLine (text : String) : endsLine (endLine text) = true := by
  unfold endLine
  cases ended : endsLine text with
  | true => exact ended
  | false => simp [endsLine]

theorem endsLine_append {earlier later : String} (first : endsLine earlier = true)
    (second : endsLine later = true) : endsLine (earlier ++ later) = true := by
  unfold endsLine at first second ⊢
  rw [String.toList_append, List.getLast?_append]
  cases last : later.toList.getLast? with
  | none => exact first
  | some c =>
    rw [last] at second
    exact second

/-- The last piece of a text that does not end with a line is a line of its own. -/
theorem getLast?_splitOn_of_endsLine {text : String} (h : endsLine text = false) :
    (text.toList.splitOn '\n').getLast? ≠ some [] := by
  intro last
  obtain ⟨before, split⟩ := List.getLast?_eq_some_iff.mp last
  have joined : ['\n'].intercalate (before ++ [[]]) = text.toList := by
    rw [← split]
    exact List.intercalate_splitOn '\n'
  rw [endsLine, ← joined] at h
  by_cases first : before = []
  · subst first
    cases h
  · rw [Text.intercalate_concat _ _ first, List.append_nil, List.getLast?_concat] at h
    cases h

namespace Document

open Text

theorem linesOf_append {earlier : String} (ended : endsLine earlier = true) (later : String) :
    linesOf (earlier ++ later) = linesOf earlier ++ linesOf later := by
  have apart : lines (earlier.toList ++ later.toList) =
      lines earlier.toList ++ lines later.toList := by
    rcases endsLine_cases ended with empty | ⟨before, split⟩
    · rw [empty]
      rfl
    · have none : lines [] = [] := rfl
      rw [split, List.append_assoc, List.singleton_append, lines_append_lineFeed,
        lines_append_lineFeed before [], none, List.append_nil]
  rw [linesOf, String.toList_append, apart, List.map_append]
  rfl

theorem map_ofText_terminated_of_last {piece : List Char} {rest : List (List Char)}
    (last : (piece :: rest).getLast? ≠ some []) :
    (lines.terminated piece rest).map Line.ofText = (piece :: rest).map Line.ofText := by
  induction rest generalizing piece with
  | nil =>
    cases piece with
    | nil => exact absurd rfl last
    | cons c others => rfl
  | cons next rest ih =>
    rw [lines.terminated, List.map_cons, Line.ofText_dropCarriageReturn, ih last]
    rfl

theorem linesOf_endLine (text : String) : linesOf (endLine text) = linesOf text := by
  unfold endLine
  cases ended : endsLine text with
  | true => rfl
  | false =>
    have last := getLast?_splitOn_of_endsLine ended
    have none : lines [] = [] := rfl
    rw [if_neg Bool.false_ne_true, linesOf, String.toList_append]
    change (lines (text.toList ++ '\n' :: [])).map Line.ofText =
      (lines text.toList).map Line.ofText
    rw [lines_append_lineFeed, none, List.append_nil, List.map_map, lines]
    cases pieces : text.toList.splitOn '\n' with
    | nil => exact absurd pieces (List.splitOn_ne_nil _ _)
    | cons piece rest =>
      rw [pieces] at last
      refine Eq.trans ?_ (map_ofText_terminated_of_last last).symm
      exact List.map_congr_left fun line _ => Line.ofText_dropCarriageReturn line

end Document

end QueryContract
