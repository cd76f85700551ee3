import QueryContract.Proofs.Grammar.Acceptance
import QueryContract.Proofs.Grammar.Renumbering
import QueryContract.Proofs.Grammar.Spacing

/-!
Comments outside query text. A reader passes over one unchanged, so the text with the comment is read
as the text without it, but for the numbers of the lines that follow.
-/

namespace QueryContract

/-- A blank line, or a comment that is no directive. -/
def IsRemark (line : List Char) : Prop :=
  Text.trim line = [] ∨
    Line.commentMark <+: Text.trim line ∧ ¬Line.directiveMark <+: Text.trim line

theorem IsRemark.ofText {line : List Char} (h : IsRemark line) :
    Line.ofText line = .comment (Text.trimEnd line) := by
  have unmarked : ¬Line.directiveMark <+: Text.trim line := by
    rcases h with blank | ⟨-, unmarked⟩
    · rw [blank]
      decide
    · exact unmarked
  have none : Line.directiveMark.isPrefixOf? (Text.trim line) = none := by
    cases found : Line.directiveMark.isPrefixOf? (Text.trim line) with
    | none => rfl
    | some body => exact absurd ⟨body, List.isPrefixOf?_eq_some_iff_append_eq.mp found⟩ unmarked
  have ignored : ((Text.trim line).isEmpty || Line.commentMark.isPrefixOf (Text.trim line)) = true := by
    rcases h with blank | ⟨marked, -⟩
    · rw [blank]
      rfl
    · rw [List.isPrefixOf_iff_prefix.mpr marked, Bool.or_true]
  rw [Line.ofText, none]
  exact if_pos ignored

/-- For each open group, innermost first, whether query text stands in it: what a line does to that. -/
def queriesAfter : List Bool → Line → List Bool
  | begun, .directive (.opening _) => false :: begun
  | begun, .directive (.closing _) => begun.tail
  | _ :: outer, .query _ => true :: outer
  | begun, _ => begun

/-- For each group that the lines leave open, innermost first, whether query text stands in it. -/
def queriesBegun (lines : List Line) : List Bool := lines.foldl queriesAfter []

namespace Reader

theorem map_hasQuery_groupsAfter (groups : List OpenGroup) (number : Nat) (line : Line) :
    (groupsAfter groups number line).map OpenGroup.hasQuery =
      queriesAfter (groups.map OpenGroup.hasQuery) line := by
  have plain (line : Line) (other : line.isQuery = false) :
      (onInnermost (·.take line) groups).map OpenGroup.hasQuery =
        groups.map OpenGroup.hasQuery := by
    cases groups with
    | nil => rfl
    | cons group outer =>
      rw [onInnermost, List.map_cons, OpenGroup.hasQuery_take, other, Bool.or_false, List.map_cons]
  cases line with
  | comment text => cases groups <;> exact plain (.comment text) rfl
  | query text =>
    cases groups with
    | nil => rfl
    | cons group outer =>
      have begun : (group.take (.query text)).hasQuery = true := by
        rw [OpenGroup.hasQuery_take, Line.isQuery, Bool.or_true]
      exact congrArg (· :: outer.map OpenGroup.hasQuery) begun
  | directive directive =>
    cases directive with
    | opening name => cases groups <;> rfl
    | closing text => cases groups <;> rfl
    | bare => cases groups <;> exact plain (.directive .bare) rfl
    | dialect argument => cases groups <;> exact plain (.directive (.dialect argument)) rfl
    | description argument => cases groups <;> exact plain (.directive (.description argument)) rfl
    | «variable» argument => cases groups <;> exact plain (.directive (.variable argument)) rfl
    | unknown body => cases groups <;> exact plain (.directive (.unknown body)) rfl

theorem map_hasQuery_run (path : Path) (reader : Reader) (number : Nat) (lines : List Line) :
    (reader.run path number lines).groups.map OpenGroup.hasQuery =
      lines.foldl queriesAfter (reader.groups.map OpenGroup.hasQuery) := by
  induction lines generalizing reader number with
  | nil => rfl
  | cons line rest ih =>
    rw [run, ih, List.foldl_cons, ← map_hasQuery_groupsAfter _ number]
    rfl

theorem addComment_of_waiting {reader : Reader}
    (waiting : true ∉ reader.groups.map OpenGroup.hasQuery) (text : List Char) :
    reader.addComment text = reader := by
  obtain ⟨dialect, past, groups, statements⟩ := reader
  cases groups with
  | nil => rfl
  | cons group outer =>
    have query : group.hasQuery = false := by
      simpa using fun begun => waiting (List.mem_map.mpr ⟨group, List.mem_cons_self, begun⟩)
    simp [addComment, query]

end Reader

/-- The number of a line after one more line is put behind the first `before` ones. -/
def numberBeside (before number : Nat) : Nat := if number ≤ before then number else number + 1

namespace Reader

variable {path : Path} {before after : List Line} {text : List Char}

/-- Lines before the place of an insertion keep their numbers, and so does all that is read there. -/
theorem readLines_before (path : Path) (before : List Line) :
    readLines path start 1 before =
      renumberedOutcome (numberBeside before.length) (renumbered (numberBeside before.length))
        (readLines path start 1 before) := by
  have numbers : ∀ i < before.length, numberBeside before.length (1 + i) = 1 + i :=
    fun i bound => if_pos (by omega)
  have same := readLines_renumbered (numberBeside before.length) start path 1 numbers
  rwa [start_renumbered] at same

theorem readLines_inserted (outside : true ∉ queriesBegun before) :
    readLines path start 1 (before ++ .comment text :: after) =
      renumberedOutcome (numberBeside before.length) (renumbered (numberBeside before.length))
        (readLines path start 1 (before ++ after)) := by
  have first := readLines_before path before
  rw [readLines_append, readLines_append]
  cases read : readLines path start 1 before with
  | error fault =>
    rw [read] at first
    exact first
  | ok reader =>
    rw [read] at first
    have kept : reader.renumbered (numberBeside before.length) = reader :=
      (Except.ok.inj first).symm
    have waiting : true ∉ reader.groups.map OpenGroup.hasQuery := by
      obtain ⟨-, -, -, rfl⟩ := readLines_eq_ok_iff.mp read
      rwa [map_hasQuery_run]
    have numbers : ∀ i < after.length, numberBeside before.length (1 + before.length + i) =
        1 + before.length + 1 + i := by
      intro i _
      rw [numberBeside, if_neg (by omega)]
      omega
    have later := readLines_renumbered (numberBeside before.length) reader path
      (1 + before.length) numbers
    rw [kept] at later
    dsimp only
    rw [readLines, readLine, addComment_of_waiting waiting]
    exact later

end Reader

namespace Document

/-- A comment or a blank line that is put where no group with query text is open changes the numbers
    of later lines and nothing else. -/
theorem remarks_are_transparent (path : Path) (text longer : String) (before after : List Line)
    (remark : List Char) (lines : linesOf text = before ++ after)
    (linesLonger : linesOf longer = before ++ Line.ofText remark :: after)
    (isRemark : IsRemark remark) (outside : true ∉ queriesBegun before) :
    read path longer =
      renumberedOutcome (numberBeside before.length) (renumbered (numberBeside before.length))
        (read path text) := by
  rw [read, read, lines, linesLonger, isRemark.ofText, Reader.readLines_inserted outside]
  cases Reader.readLines path .start 1 (before ++ after) with
  | error fault => rfl
  | ok reader => exact Reader.finish_renumbered _ reader path

def terseText : String :=
  "-- #\x7b list\n-- # :id int\nSELECT :id\n-- #\x7d\n-- #\x7b drop\nDELETE\n-- #\x7d"

def notedText : String :=
  "-- #\x7b list\n  -- by number\n-- # :id int\nSELECT :id\n-- #\x7d\n-- #\x7b drop\nDELETE\n-- #\x7d"

theorem remarks_of_notedText :
    linesOf terseText = [.directive (.opening "list".toList)] ++ (linesOf terseText).tail ∧
      linesOf notedText = [.directive (.opening "list".toList)] ++
        Line.ofText "  -- by number".toList :: (linesOf terseText).tail ∧
      IsRemark "  -- by number".toList ∧
      true ∉ queriesBegun [.directive (.opening "list".toList)] ∧
      (read ⟨"q.sql"⟩ terseText).map (·.statements.map Statement.line) = .ok [1, 5] ∧
      (read ⟨"q.sql"⟩ notedText).map (·.statements.map Statement.line) = .ok [1, 6] ∧
      read ⟨"q.sql"⟩ notedText =
        renumberedOutcome (numberBeside 1) (renumbered (numberBeside 1))
          (read ⟨"q.sql"⟩ terseText) := by
  have lines : linesOf terseText =
      [.directive (.opening "list".toList)] ++ (linesOf terseText).tail := by decide +kernel
  have linesNoted : linesOf notedText = [.directive (.opening "list".toList)] ++
      Line.ofText "  -- by number".toList :: (linesOf terseText).tail := by decide +kernel
  have isRemark : IsRemark "  -- by number".toList :=
    .inr ⟨by decide +kernel, by decide +kernel⟩
  have outside : true ∉ queriesBegun [.directive (.opening "list".toList)] := by decide +kernel
  exact ⟨lines, linesNoted, isRemark, outside, by decide +kernel, by decide +kernel,
    remarks_are_transparent _ _ _ _ _ _ lines linesNoted isRemark outside⟩

end Document

end QueryContract
