import QueryContract.Declaration.Reader

/-!
Line numbers are carried through a run and never looked at. When the lines are numbered in another
way, the reader, its faults and its statements have the new numbers and are otherwise the same.
-/

namespace QueryContract

variable (place : Nat → Nat)

def Statement.renumbered (statement : Statement) : Statement :=
  { statement with line := place statement.line }

def Document.renumbered (document : Document) : Document :=
  { document with statements := document.statements.map (Statement.renumbered place) }

def ReadFault.renumbered (fault : ReadFault) : ReadFault := { fault with line := place fault.line }

/-- The outcome of reading when the lines have other numbers. -/
def renumberedOutcome {α : Type} (renumbered : α → α) : Except ReadFault α → Except ReadFault α
  | .ok value => .ok (renumbered value)
  | .error fault => .error (fault.renumbered place)

def OpenGroup.renumbered (group : OpenGroup) : OpenGroup := { group with line := place group.line }

theorem OpenGroup.hasQuery_renumbered (group : OpenGroup) :
    (group.renumbered place).hasQuery = group.hasQuery := rfl

theorem OpenGroup.hasPreface_renumbered (group : OpenGroup) :
    (group.renumbered place).hasPreface = group.hasPreface := rfl

theorem OpenGroup.isParent_renumbered (group : OpenGroup) :
    (group.renumbered place).isParent = group.isParent := rfl

namespace Reader

def renumbered (reader : Reader) : Reader :=
  { reader with
    groups := reader.groups.map (OpenGroup.renumbered place)
    statements := reader.statements.map (Statement.renumbered place) }

theorem start_renumbered : start.renumbered place = start := rfl

theorem qualifiedName_renumbered (groups : List OpenGroup) :
    qualifiedName (groups.map (OpenGroup.renumbered place)) = qualifiedName groups := by
  rw [qualifiedName, ← List.map_reverse, List.map_map]
  rfl

variable (reader : Reader) (path : Path) (number : Nat)

theorem readDialect_renumbered (argument : List Char) :
    (reader.renumbered place).readDialect argument =
      (reader.readDialect argument).map (renumbered place) := by
  unfold readDialect renumbered
  dsimp only
  split
  · rfl
  · split <;> rfl

theorem openGroup_renumbered (argument : List Char) :
    (reader.renumbered place).openGroup (place number) argument =
      (reader.openGroup number argument).map (renumbered place) := by
  obtain ⟨dialect, past, groups, statements⟩ := reader
  unfold openGroup renumbered
  cases isGroupName argument with
  | false => rfl
  | true =>
    cases groups with
    | nil => rfl
    | cons parent outer =>
      cases query : parent.hasQuery <;> cases preface : parent.hasPreface <;>
        simp only [List.map_cons, OpenGroup.hasQuery_renumbered,
          OpenGroup.hasPreface_renumbered, query, preface] <;> rfl

theorem closeGroup_renumbered (argument : List Char) :
    (reader.renumbered place).closeGroup path (place number) argument =
      renumberedOutcome place (renumbered place) (reader.closeGroup path number argument) := by
  obtain ⟨dialect, past, groups, statements⟩ := reader
  unfold closeGroup renumbered
  cases argument with
  | cons c rest => rfl
  | nil =>
    cases groups with
    | nil => rfl
    | cons group outer =>
      have name := qualifiedName_renumbered place (group :: outer)
      have known : (statements.map (Statement.renumbered place)).any
          (·.name == qualifiedName (group :: outer)) =
            statements.any (·.name == qualifiedName (group :: outer)) := by
        rw [List.any_map]
        rfl
      rw [List.map_cons] at name
      simp only [List.map_cons, name, known, OpenGroup.hasQuery_renumbered,
        OpenGroup.isParent_renumbered]
      cases group.isParent <;> cases group.hasQuery <;>
        cases statements.any (·.name == qualifiedName (group :: outer)) <;>
        simp [renumberedOutcome, ReadFault.renumbered, OpenGroup.renumbered,
          Statement.renumbered, statementOf]

theorem editHeader_renumbered (what : String) (edit : OpenGroup → Except LineFault OpenGroup)
    (carried : ∀ group : OpenGroup, edit (group.renumbered place) =
      (edit group).map (OpenGroup.renumbered place)) :
    (reader.renumbered place).editHeader what edit =
      (reader.editHeader what edit).map (renumbered place) := by
  obtain ⟨dialect, past, groups, statements⟩ := reader
  unfold editHeader renumbered
  cases groups with
  | nil => rfl
  | cons group outer =>
    simp only [List.map_cons, carried, OpenGroup.hasQuery_renumbered,
      OpenGroup.isParent_renumbered]
    cases group.hasQuery <;> cases group.isParent <;> cases edit group <;> rfl

theorem addDescription_renumbered (argument : List Char) :
    (reader.renumbered place).addDescription argument =
      (reader.addDescription argument).map (renumbered place) :=
  editHeader_renumbered place reader _ _ fun _ => rfl

theorem addVariable_renumbered (argument : List Char) :
    (reader.renumbered place).addVariable argument =
      (reader.addVariable argument).map (renumbered place) := by
  unfold addVariable
  split
  · rfl
  · dsimp only
    split
    · rfl
    · split
      · rfl
      · apply editHeader_renumbered
        intro group
        have declarations : (group.renumbered place).declarations = group.declarations := rfl
        rw [declarations]
        split <;> rfl

theorem addComment_renumbered (text : List Char) :
    (reader.renumbered place).addComment text = (reader.addComment text).renumbered place := by
  obtain ⟨dialect, past, groups, statements⟩ := reader
  unfold addComment renumbered
  cases groups with
  | nil => rfl
  | cons group outer =>
    simp only [List.map_cons, OpenGroup.hasQuery_renumbered]
    cases group.hasQuery <;> rfl

theorem addQuery_renumbered (text : List Char) :
    (reader.renumbered place).addQuery text = (reader.addQuery text).map (renumbered place) := by
  obtain ⟨dialect, past, groups, statements⟩ := reader
  unfold addQuery renumbered
  cases groups with
  | nil => rfl
  | cons group outer =>
    cases parent : group.isParent <;>
      simp only [List.map_cons, OpenGroup.isParent_renumbered, parent] <;> rfl

theorem atLine_renumbered (result : Except LineFault Reader) :
    atLine (place number) (result.map (renumbered place)) =
      renumberedOutcome place (renumbered place) (atLine number result) := by
  cases result <;> rfl

theorem readDirective_renumbered (directive : Directive) :
    (reader.renumbered place).readDirective path (place number) directive =
      renumberedOutcome place (renumbered place) (reader.readDirective path number directive) := by
  cases directive with
  | bare => rfl
  | dialect argument => rw [readDirective, readDialect_renumbered, atLine_renumbered, readDirective]
  | opening argument => rw [readDirective, openGroup_renumbered, atLine_renumbered, readDirective]
  | closing argument => exact closeGroup_renumbered place reader path number argument
  | description argument =>
    rw [readDirective, addDescription_renumbered, atLine_renumbered, readDirective]
  | «variable» argument =>
    rw [readDirective, addVariable_renumbered, atLine_renumbered, readDirective]
  | unknown body => rfl

theorem readLine_renumbered (line : Line) :
    (reader.renumbered place).readLine path (place number) line =
      renumberedOutcome place (renumbered place) (reader.readLine path number line) := by
  cases line with
  | directive directive =>
    rw [readLine, readLine, readDirective_renumbered]
    cases reader.readDirective path number directive <;> rfl
  | comment text => rw [readLine, readLine, addComment_renumbered, renumberedOutcome]
  | query text => rw [readLine, addQuery_renumbered, atLine_renumbered, readLine]

theorem readLines_renumbered {lines : List Line} {other : Nat}
    (numbers : ∀ i < lines.length, place (number + i) = other + i) :
    readLines path (reader.renumbered place) other lines =
      renumberedOutcome place (renumbered place) (readLines path reader number lines) := by
  induction lines generalizing reader number other with
  | nil => rfl
  | cons line rest ih =>
    have here : place number = other := numbers 0 (Nat.zero_lt_succ _)
    have later : ∀ i < rest.length, place (number + 1 + i) = other + 1 + i := by
      intro i bound
      have next := numbers (i + 1) (Nat.succ_lt_succ bound)
      rw [Nat.add_assoc, Nat.add_comm 1, next, Nat.add_assoc, Nat.add_comm 1]
    rw [readLines, ← here, readLine_renumbered, readLines]
    cases reader.readLine path number line with
    | error fault => rfl
    | ok next =>
      rw [here]
      exact ih next (number + 1) later

theorem finish_renumbered :
    (reader.renumbered place).finish path =
      renumberedOutcome place (Document.renumbered place) (reader.finish path) := by
  obtain ⟨dialect, past, groups, statements⟩ := reader
  cases groups <;> rfl

end Reader

end QueryContract
