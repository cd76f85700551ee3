import Mathlib.Data.List.Nodup
import QueryContract.Proofs.Grammar.Contents
import QueryContract.Proofs.Grammar.Documents
import QueryContract.Proofs.Text.LineEnds

/-!
Reading is compositional. The statements of two texts one after the other are those of the first and
those of the second; the statements of a text inside a group are those of the text with the name of
the group before theirs. Forests are put together in the same two ways, so neither needs a run.
-/

namespace QueryContract

/-- The statement when it stands some lines further down. -/
def Statement.later (count : Nat) (statement : Statement) : Statement :=
  { statement with line := statement.line + count }

/-- The statement when all of its file stands in one more group. -/
def Statement.within (group : String) (statement : Statement) : Statement :=
  { statement with name := group ++ "." ++ statement.name }

theorem OpenGroup.take_atLine (group : OpenGroup) (number : Nat) (line : Line) :
    OpenGroup.take { group with line := number } line = { group.take line with line := number } := by
  have same : hasQuery { group with line := number } = group.hasQuery := rfl
  unfold take
  rw [same]
  repeat' split
  all_goals rfl

theorem OpenGroup.takeAll_atLine (group : OpenGroup) (number : Nat) (own : List Line) :
    takeAll { group with line := number } own = { group.takeAll own with line := number } := by
  induction own generalizing group with
  | nil => rfl
  | cons line rest ih =>
    rw [takeAll, List.foldl_cons, take_atLine]
    exact ih (group.take line)

namespace Group

/-- The group when other groups stand around its file and lines before it. -/
def moved (outer : List String) (count : Nat) (group : Group) : Group :=
  { group with around := outer ++ group.around, number := group.number + count }

variable {path : Path} {group : Group}

theorem Regular.moved (regular : group.Regular) (outer : List String) (count : Nat) :
    (group.moved outer count).Regular :=
  ⟨regular.shape, regular.distinct⟩

theorem fullName_moved_singleton (outer : String) (count : Nat) (group : Group) :
    (group.moved [outer] count).fullName = outer ++ "." ++ group.fullName :=
  String.intercalate_cons_of_ne_nil (by simp)

theorem statement_moved (path : Path) (outer : List String) (count : Nat) (group : Group) :
    (group.moved outer count).statement path =
      { (group.statement path).later count with name := (group.moved outer count).fullName } := by
  have taken := OpenGroup.takeAll_atLine (.opened group.name group.number) (group.number + count)
    group.inside.own
  have line := OpenGroup.line_takeAll (.opened group.name group.number) group.inside.own
  have further : ((OpenGroup.opened group.name group.number).takeAll group.inside.own).line + count =
      group.number + count := congrArg (· + count) line
  unfold statement moved Reader.statementOf Statement.later
  dsimp only at taken ⊢
  rw [further]
  unfold OpenGroup.opened at taken ⊢
  rw [taken]

end Group

namespace Forest

def append : Forest → Forest → Forest
  | nil, after => after
  | line first plain rest, after => line first plain (rest.append after)
  | group name inside ending rest, after => group name inside ending (rest.append after)

/-- The forest inside one more group. -/
def wrapped (name : List Char) (forest : Forest) : Forest := group name forest [] nil

theorem lines_append (forest after : Forest) :
    (forest.append after).lines = forest.lines ++ after.lines := by
  induction forest with
  | nil => rfl
  | line first plain rest ih => rw [append, lines, ih, lines, List.cons_append]
  | group name inside ending rest _ ih =>
    simp only [append, lines, ih, List.cons_append, List.append_assoc]

theorem own_append (forest after : Forest) :
    (forest.append after).own = forest.own ++ after.own := by
  induction forest with
  | nil => rfl
  | line first plain rest ih => rw [append, own, ih, own, List.cons_append]
  | group name inside ending rest _ ih => rw [append, own, ih, own]

theorem groups_append (forest after : Forest) (around : List String) (number : Nat) :
    (forest.append after).groups around number =
      forest.groups around number ++ after.groups around (number + forest.lines.length) := by
  induction forest generalizing number with
  | nil => rfl
  | line first plain rest ih =>
    rw [append, groups, ih, groups, lines, List.length_cons, Nat.add_assoc, Nat.add_comm 1]
  | group name inside ending rest _ ih =>
    have place : number + 1 + inside.lines.length + 1 + rest.lines.length =
        number + (inside.lines.length + (rest.lines.length + 1) + 1) := by omega
    simp only [append, groups, ih, place, lines, List.length_cons, List.length_append,
      List.cons_append, List.append_assoc]

/-- Where a forest stands changes its groups in their places only. -/
theorem groups_moved (forest : Forest) (outer around : List String) (number count : Nat) :
    forest.groups (outer ++ around) (number + count) =
      (forest.groups around number).map (Group.moved outer count) := by
  induction forest generalizing around number with
  | nil => rfl
  | line first plain rest ih =>
    rw [groups, groups, ← ih, Nat.add_right_comm]
  | group name inside ending rest ihInside ihRest =>
    have first : number + count + 1 = number + 1 + count := by omega
    have second : number + 1 + count + inside.lines.length + 1 =
        number + 1 + inside.lines.length + 1 + count := by omega
    rw [groups, groups, List.map_cons, List.map_append, ← ihInside, ← ihRest, first, second,
      List.append_assoc]
    rfl

theorem statements_further (path : Path) (forest : Forest) (around : List String)
    (number count : Nat) :
    forest.statements path around (number + count) =
      (forest.statements path around number).map (Statement.later count) := by
  have shifted := forest.groups_moved [] around number count
  rw [List.nil_append] at shifted
  rw [statements, shifted, List.filter_map, List.map_map, statements, List.map_map]
  exact List.map_congr_left fun group _ => group.statement_moved path [] count

theorem statements_within (path : Path) (forest : Forest) (outer : String) (number count : Nat) :
    forest.statements path [outer] (number + count) =
      (forest.statements path [] number).map fun statement =>
        (statement.within outer).later count := by
  have shifted := forest.groups_moved [outer] [] number count
  rw [List.append_nil] at shifted
  rw [statements, shifted, List.filter_map, List.map_map, statements, List.map_map]
  apply List.map_congr_left
  intro group _
  rw [Function.comp_apply, group.statement_moved, group.fullName_moved_singleton]
  rfl

theorem statements_append (path : Path) (forest after : Forest) :
    (forest.append after).statements path [] 1 =
      forest.statements path [] 1 ++
        (after.statements path [] 1).map (Statement.later forest.lines.length) := by
  rw [← statements_further, statements, groups_append, List.filter_append, List.map_append]
  rfl

theorem statementNames_append (forest after : Forest) :
    (forest.append after).statementNames [] 1 =
      forest.statementNames [] 1 ++ after.statementNames [] 1 := by
  rw [← names_statements ⟨""⟩, statements_append, List.map_append, List.map_map, names_statements,
    ← after.names_statements ⟨""⟩]
  rfl

variable {forest after : Forest} {name : List Char}

theorem statements_wrapped (path : Path) (name : List Char) (branch : forest.hasGroup = true) :
    (forest.wrapped name).statements path [] 1 =
      (forest.statements path [] 1).map fun statement =>
        (statement.within (String.ofList name)).later 1 := by
  rw [wrapped, statements_group, branch, if_pos rfl, List.append_nil, List.nil_append,
    statements_within]
  exact List.append_nil _

theorem statementNames_wrapped (name : List Char) (branch : forest.hasGroup = true) :
    (forest.wrapped name).statementNames [] 1 =
      (forest.statementNames [] 1).map (String.ofList name ++ "." ++ ·) := by
  rw [← names_statements ⟨""⟩, statements_wrapped _ _ branch, List.map_map,
    ← forest.names_statements ⟨""⟩, List.map_map]
  rfl

end Forest

theorem foldl_dialectAfter_of_none {lines : List Line}
    (none : ∀ argument, .directive (.dialect argument) ∉ lines) (dialect : Option String) :
    lines.foldl Reader.dialectAfter dialect = dialect := by
  induction lines generalizing dialect with
  | nil => rfl
  | cons line rest ih =>
    have later := fun argument member => none argument (List.mem_cons_of_mem _ member)
    have here : Reader.dialectAfter dialect line = dialect := by
      unfold Reader.dialectAfter
      split
      · exact absurd List.mem_cons_self (none _)
      · rfl
    rw [List.foldl_cons, here, ih later]

theorem dialectFirst_of_none {lines : List Line}
    (none : ∀ argument, .directive (.dialect argument) ∉ lines) (past : Bool) :
    DialectFirst past lines := by
  intro before argument after split
  refine absurd ?_ (none argument)
  rw [split]
  exact List.mem_append_right _ List.mem_cons_self

theorem DialectFirst.append {past : Bool} {lines after : List Line} (h : DialectFirst past lines)
    (none : ∀ argument, .directive (.dialect argument) ∉ after) :
    DialectFirst past (lines ++ after) := by
  induction lines generalizing past with
  | nil => exact dialectFirst_of_none none past
  | cons line rest ih =>
    rw [dialectFirst_cons_iff] at h
    rw [List.cons_append, dialectFirst_cons_iff]
    exact ⟨h.1, ih h.2⟩

namespace Forest

variable {forest after : Forest} {name : List Char}

theorem Accepted.append (accepted : forest.Accepted) (next : after.Accepted)
    (none : ∀ argument, .directive (.dialect argument) ∉ after.lines)
    (apart : (forest.statementNames [] 1).Disjoint (after.statementNames [] 1)) :
    (forest.append after).Accepted := by
  have shifted := after.groups_moved [] [] 1 forest.lines.length
  rw [List.nil_append] at shifted
  constructor
  · rw [lines_append, List.forall_mem_append]
    exact ⟨accepted.formed, next.formed⟩
  · rw [lines_append]
    exact accepted.dialects.append none
  · rw [own_append, List.forall_mem_append]
    exact ⟨accepted.level, next.level⟩
  · rw [groups_append, shifted, List.forall_mem_append, List.forall_mem_map]
    exact ⟨accepted.regular, fun group member => (next.regular group member).moved _ _⟩
  · rw [statementNames_append]
    exact List.Nodup.append accepted.distinct next.distinct apart

theorem document_append (path : Path) (forest : Forest)
    (none : ∀ argument, .directive (.dialect argument) ∉ after.lines) :
    (forest.append after).document path =
      { forest.document path with
        statements := (forest.document path).statements ++
          (after.document path).statements.map (Statement.later forest.lines.length) } := by
  rw [document, lines_append, List.foldl_append, foldl_dialectAfter_of_none none,
    statements_append]
  rfl

theorem hasGroup_of_statements {path : Path} (h : (forest.document path).statements ≠ []) :
    forest.hasGroup = true := by
  cases branch : forest.hasGroup with
  | true => rfl
  | false =>
    rw [document, statements, groups_eq_nil_of_hasGroup branch] at h
    exact absurd rfl h

theorem variableNames_of_plain {own : List Line} (plain : ∀ line ∈ own, line.isContent = false) :
    variableNames own = [] := by
  rw [variableNames, List.filterMap_eq_nil_iff]
  intro line member
  have header := ((Line.isContent_eq_false_iff line).mp (plain line member)).2
  unfold Line.variableName?
  split
  · cases header
  · rfl

theorem lines_wrapped (name : List Char) (forest : Forest) :
    (forest.wrapped name).lines =
      [.directive (.opening name)] ++ forest.lines ++ [.directive (.closing [])] := rfl

theorem Accepted.wrapped (accepted : forest.Accepted) (legal : Reader.isGroupName name = true)
    (none : ∀ argument, .directive (.dialect argument) ∉ forest.lines)
    (branch : forest.hasGroup = true) : (forest.wrapped name).Accepted := by
  have inner := forest.groups_moved [String.ofList name] [] 1 1
  constructor
  · rw [lines_wrapped, List.forall_mem_append, List.forall_mem_append, List.forall_mem_singleton,
      List.forall_mem_singleton]
    exact ⟨⟨legal, accepted.formed⟩, rfl⟩
  · refine dialectFirst_of_none (fun argument member => ?_) false
    simp [lines_wrapped, none argument] at member
  · exact List.forall_mem_nil _
  · rw [List.append_nil] at inner
    rw [Forest.wrapped, groups, List.nil_append, inner, List.forall_mem_cons,
      List.forall_mem_append, List.forall_mem_map]
    refine ⟨⟨.inl ⟨branch, accepted.level⟩, ?_⟩, ?_, List.forall_mem_nil _⟩
    · rw [variableNames_of_plain accepted.level]
      exact List.nodup_nil
    · exact fun group member => (accepted.regular group member).moved _ _
  · rw [statementNames_wrapped name branch]
    exact List.Nodup.map (fun _ _ => (String.append_right_inj _).mp) accepted.distinct

theorem document_wrapped (path : Path) (name : List Char)
    (none : ∀ argument, .directive (.dialect argument) ∉ forest.lines)
    (branch : forest.hasGroup = true) :
    (forest.wrapped name).document path =
      { forest.document path with
        statements := (forest.document path).statements.map fun statement =>
          (statement.within (String.ofList name)).later 1 } := by
  have silent : ∀ argument, .directive (.dialect argument) ∉ (forest.wrapped name).lines := by
    intro argument member
    simp [lines_wrapped, none argument] at member
  rw [document, foldl_dialectAfter_of_none silent, statements_wrapped path name branch, document,
    foldl_dialectAfter_of_none none]

end Forest

namespace Text

theorem trimStart_of_solid {text : List Char} (solid : ∀ c ∈ text, isBlank c = false) :
    trimStart text = text := by
  cases text with
  | nil => rfl
  | cons c rest => exact List.dropWhile_cons_of_neg (by simp [solid c List.mem_cons_self])

theorem trimEnd_of_solid {text : List Char} (solid : ∀ c ∈ text, isBlank c = false) :
    trimEnd text = text := by
  have reversed : ∀ c ∈ text.reverse, isBlank c = false := fun c member =>
    solid c (List.mem_reverse.mp member)
  rw [trimEnd, trimStart_of_solid reversed, List.reverse_reverse]

end Text

/-- The line that opens a group. -/
def openingLine (group : String) : String := "-- #\x7b " ++ group

def closingLine : String := "-- #\x7d"

theorem Line.ofText_openingLine {group : String} (legal : Reader.isGroupName group.toList = true) :
    ofText (openingLine group).toList = .directive (.opening group.toList) := by
  obtain ⟨named, allowed⟩ := (isGroupName_iff group.toList).mp legal
  have solid : ∀ c ∈ group.toList, Text.isBlank c = false := fun c member => (allowed c member).1
  have ended := Text.trimEnd_of_solid solid
  have marked : (openingLine group).toList = '-' :: '-' :: ' ' :: '#' :: '{' :: ' ' :: group.toList :=
    String.toList_append
  have trimmed : Text.trim (openingLine group).toList = (openingLine group).toList := by
    rw [marked]
    exact Text.trimEnd_append_of_ne_nil ['-', '-', ' ', '#', '{', ' '] named ended
  have argument : Text.trim (' ' :: group.toList) = group.toList := by
    change Text.trimEnd (Text.trimStart group.toList) = group.toList
    rw [Text.trimStart_of_solid solid, ended]
  unfold ofText
  rw [trimmed, marked]
  change Line.directive (.opening (Text.trim (' ' :: group.toList))) = _
  rw [argument]

namespace Document

theorem unbroken_openingLine {group : String} (legal : Reader.isGroupName group.toList = true) :
    '\n' ∉ (openingLine group).toList := by
  have allowed := ((isGroupName_iff group.toList).mp legal).2
  intro member
  rw [openingLine, String.toList_append] at member
  rcases List.mem_append.mp member with mark | name
  · exact absurd mark (by decide)
  · exact absurd (allowed _ name).1 (by decide)

theorem linesOf_openingLine {group : String} (legal : Reader.isGroupName group.toList = true) :
    linesOf (openingLine group ++ "\n") = [.directive (.opening group.toList)] := by
  have unbroken := unbroken_openingLine legal
  have lines : Text.lines ((openingLine group).toList ++ '\n' :: []) =
      [Text.dropCarriageReturn (openingLine group).toList] := by
    rw [Text.lines_append_lineFeed, List.splitOn_eq_singleton unbroken]
    rfl
  rw [linesOf, String.toList_append]
  exact (congrArg (List.map Line.ofText) lines).trans
    (by rw [List.map_singleton, Line.ofText_dropCarriageReturn, Line.ofText_openingLine legal])

theorem linesOf_closingLine {ending : String} (ended : ending = "" ∨ ending = "\n") :
    linesOf (closingLine ++ ending) = [.directive (.closing [])] := by
  rcases ended with rfl | rfl <;> decide +kernel

/-- Two texts of which the first ends with a line are read as one, if the second one names no dialect
    and no statement of the first; and a text that names no dialect is read inside a group. -/
theorem reading_composes (path : Path) :
    (∀ earlier later first second, read path earlier = .ok first → read path later = .ok second →
      endsLine earlier = true →
      (∀ argument, .directive (.dialect argument) ∉ linesOf later) →
      (first.statements.map Statement.name).Disjoint (second.statements.map Statement.name) →
      read path (earlier ++ later) =
        .ok { first with
          statements := first.statements ++
            second.statements.map (Statement.later (linesOf earlier).length) }) ∧
    ∀ text document group ending, read path text = .ok document → document.statements ≠ [] →
      (∀ argument, .directive (.dialect argument) ∉ linesOf text) →
      Reader.isGroupName group.toList = true → (ending = "" ∨ ending = "\n") →
      read path (openingLine group ++ "\n" ++ endLine text ++ (closingLine ++ ending)) =
        .ok { document with
          statements := document.statements.map fun statement =>
            (statement.within group).later 1 } := by
  constructor
  · intro earlier later first second readFirst readSecond ended none apart
    obtain ⟨forest, same, accepted, rfl⟩ := read_eq_ok_iff.mp readFirst
    obtain ⟨after, sameAfter, next, rfl⟩ := read_eq_ok_iff.mp readSecond
    rw [← sameAfter] at none
    rw [Forest.names_document, Forest.names_document] at apart
    refine read_eq_ok_iff.mpr ⟨forest.append after, ?_, accepted.append next none apart, ?_⟩
    · rw [Forest.lines_append, same, sameAfter, linesOf_append ended]
    · rw [Forest.document_append path forest none, same]
  · intro text document group ending readText named none legal ended
    obtain ⟨forest, same, accepted, rfl⟩ := read_eq_ok_iff.mp readText
    rw [← same] at none
    have branch : forest.hasGroup = true := Forest.hasGroup_of_statements named
    have opened : endsLine (openingLine group ++ "\n") = true := by
      simp [endsLine]
    have inner := endsLine_append opened (endsLine_endLine text)
    refine read_eq_ok_iff.mpr
      ⟨forest.wrapped group.toList, ?_, accepted.wrapped legal none branch, ?_⟩
    · rw [linesOf_append inner, linesOf_append opened, linesOf_openingLine legal, linesOf_endLine,
        linesOf_closingLine ended, ← same, Forest.lines_wrapped]
    · rw [Forest.document_wrapped path group.toList none branch, String.ofList_toList]

def dialectText : String := "-- #! mysql\n-- #\x7b list\n-- # :id int\nSELECT :id\n-- #\x7d\n"

def plainText : String := "-- #\x7b drop\nDELETE\n\n-- #\x7d"

theorem composition_of_plainText : ∃ first second : Document,
    read ⟨"q.sql"⟩ dialectText = .ok first ∧ read ⟨"q.sql"⟩ plainText = .ok second ∧
      endsLine dialectText = true ∧ second.statements ≠ [] ∧
      (∀ argument, .directive (.dialect argument) ∉ linesOf plainText) ∧
      (first.statements.map Statement.name).Disjoint (second.statements.map Statement.name) ∧
      Reader.isGroupName "players".toList = true ∧
      read ⟨"q.sql"⟩ (dialectText ++ plainText) =
        .ok { first with
          statements := first.statements ++ second.statements.map (Statement.later 5) } ∧
      read ⟨"q.sql"⟩ (openingLine "players" ++ "\n" ++ endLine plainText ++ (closingLine ++ "")) =
        .ok { second with
          statements := second.statements.map fun statement =>
            (statement.within "players").later 1 } := by
  let list : Statement :=
    ⟨"list", "SELECT :id", .ofList [("id", ⟨.int, false, false, false, none⟩)], "", ⟨"q.sql"⟩, 2⟩
  let drop : Statement := ⟨"drop", "DELETE", .empty, "", ⟨"q.sql"⟩, 1⟩
  have first : read ⟨"q.sql"⟩ dialectText = .ok ⟨⟨"q.sql"⟩, some "mysql", [list]⟩ := by
    decide +kernel
  have second : read ⟨"q.sql"⟩ plainText = .ok ⟨⟨"q.sql"⟩, none, [drop]⟩ := by decide +kernel
  have ended : endsLine dialectText = true := by decide +kernel
  have lines : linesOf plainText =
      [.directive (.opening "drop".toList), .query "DELETE".toList, .comment [],
        .directive (.closing [])] := by
    decide +kernel
  have none : ∀ argument, .directive (.dialect argument) ∉ linesOf plainText := by simp [lines]
  have count : (linesOf dialectText).length = 5 := by decide +kernel
  have apart : ([list].map Statement.name).Disjoint ([drop].map Statement.name) := by
    simp [list, drop]
  have legal : Reader.isGroupName "players".toList = true := by decide +kernel
  obtain ⟨joins, wraps⟩ := reading_composes ⟨"q.sql"⟩
  have joined := joins _ _ _ _ first second ended none apart
  rw [count] at joined
  exact ⟨_, _, first, second, ended, List.cons_ne_nil _ _, none, apart, legal, joined,
    wraps _ _ _ _ second (List.cons_ne_nil _ _) none legal (.inl rfl)⟩

end Document

end QueryContract
