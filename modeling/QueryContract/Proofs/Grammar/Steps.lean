import QueryContract.Declaration.Reader

/-!
One line at a time: which lines a reader admits, and what it is after a line that it admits. The
state after a line is given for every line, so that a run has its states before it is known to be
accepted.
-/

namespace QueryContract

def Line.isOpening : Line → Bool
  | .directive (.opening _) => true
  | _ => false

def Line.isClosing : Line → Bool
  | .directive (.closing _) => true
  | _ => false

def Line.isDirective : Line → Bool
  | .directive _ => true
  | _ => false

namespace OpenGroup

def take (group : OpenGroup) : Line → OpenGroup
  | .directive (.description argument) =>
    { group with doc := group.doc ++ [String.ofList argument] }
  | .directive (.variable argument) =>
    match VariableLine.split? argument with
    | none => group
    | some parts =>
      match Declaration.read parts.type parts.default? with
      | .error _ => group
      | .ok declaration =>
        { group with
          declarations := group.declarations.put (String.ofList parts.name) declaration }
  | .directive _ => group
  | .comment text =>
    if group.hasQuery then { group with query := group.query ++ [String.ofList text] } else group
  | .query text => { group with query := group.query ++ [String.ofList text] }

def asParent (group : OpenGroup) : OpenGroup := { group with isParent := true }

end OpenGroup

namespace Reader

def onInnermost (edit : OpenGroup → OpenGroup) : List OpenGroup → List OpenGroup
  | [] => []
  | group :: outer => edit group :: outer

def groupsAfter (groups : List OpenGroup) (number : Nat) : Line → List OpenGroup
  | .directive (.opening name) =>
    .opened (String.ofList name) number :: onInnermost .asParent groups
  | .directive (.closing _) => groups.tail
  | line => onInnermost (·.take line) groups

def statementsAfter (path : Path) (groups : List OpenGroup) (statements : List Statement) :
    Line → List Statement
  | .directive (.closing _) =>
    match groups with
    | [] => statements
    | group :: _ =>
      if group.isParent then statements
      else statements ++ [statementOf path (qualifiedName groups) group]
  | _ => statements

def dialectAfter (dialect : Option String) : Line → Option String
  | .directive (.dialect argument) => some (String.ofList (Text.lowercase argument))
  | _ => dialect

def advance (path : Path) (reader : Reader) (number : Nat) (line : Line) : Reader where
  dialect := dialectAfter reader.dialect line
  pastDirective := reader.pastDirective || line.isDirective
  groups := groupsAfter reader.groups number line
  statements := statementsAfter path reader.groups reader.statements line

def TakesHeader : List OpenGroup → Prop
  | [] => False
  | group :: _ => group.hasQuery = false ∧ group.isParent = false

/-- What the open groups and the closed statements require of a line. -/
def Fits (groups : List OpenGroup) (statements : List Statement) : Line → Prop
  | .directive (.opening _) =>
    match groups with
    | [] => True
    | group :: _ => group.hasQuery = false ∧ group.hasPreface = false
  | .directive (.closing _) =>
    match groups with
    | [] => False
    | group :: _ =>
      group.isParent = true ∨
        group.hasQuery = true ∧ ∀ statement ∈ statements, statement.name ≠ qualifiedName groups
  | .directive (.description _) => TakesHeader groups
  | .directive (.variable argument) =>
    TakesHeader groups ∧
      ∀ parts, VariableLine.split? argument = some parts →
        ∀ group ∈ groups.head?, group.declarations.contains (String.ofList parts.name) = false
  | .query _ =>
    match groups with
    | [] => False
    | group :: _ => group.isParent = false
  | _ => True

end Reader

/-- What a line must be wherever it stands. -/
def Line.WellFormed : Line → Prop
  | .directive (.dialect argument) => Text.isName argument = true
  | .directive (.opening argument) => Reader.isGroupName argument = true
  | .directive (.closing argument) => argument = []
  | .directive (.variable argument) =>
    ∃ parts declaration, VariableLine.split? argument = some parts ∧
      String.ofList parts.name ≠ Reader.reservedName ∧
        Declaration.read parts.type parts.default? = .ok declaration
  | .directive (.unknown _) => False
  | _ => True

def Line.InTime (pastDirective : Bool) : Line → Prop
  | .directive (.dialect _) => pastDirective = false
  | _ => True

namespace Reader

variable {reader next : Reader}

theorem atLine_eq_ok_iff {number : Nat} {result : Except LineFault Reader} :
    atLine number result = .ok next ↔ result = .ok next := by
  cases result with
  | ok reader => simp [atLine]
  | error fault => simp [atLine]

theorem readDialect_eq_ok_iff {argument : List Char} :
    reader.readDialect argument = .ok next ↔
      Text.isName argument = true ∧ reader.pastDirective = false ∧
        { reader with dialect := some (String.ofList (Text.lowercase argument)) } = next := by
  rw [readDialect]
  cases reader.pastDirective <;> cases Text.isName argument <;> simp

theorem openGroup_eq_ok_iff {number : Nat} {argument : List Char} :
    reader.openGroup number argument = .ok next ↔
      isGroupName argument = true ∧
        Fits reader.groups reader.statements (.directive (.opening argument)) ∧
          { reader with
            groups := .opened (String.ofList argument) number ::
              onInnermost .asParent reader.groups } = next := by
  rw [openGroup]
  cases isGroupName argument with
  | false => simp
  | true =>
    obtain ⟨dialect, past, groups, statements⟩ := reader
    cases groups with
    | nil => simp [Fits, onInnermost]
    | cons parent outer =>
      cases query : parent.hasQuery <;> cases preface : parent.hasPreface <;>
        simp [Fits, onInnermost, OpenGroup.asParent, query, preface]

theorem closeGroup_eq_ok_iff {path : Path} {number : Nat} {argument : List Char} :
    reader.closeGroup path number argument = .ok next ↔
      argument = [] ∧ Fits reader.groups reader.statements (.directive (.closing argument)) ∧
        { reader with
          groups := reader.groups.tail
          statements := statementsAfter path reader.groups reader.statements
            (.directive (.closing argument)) } = next := by
  rw [closeGroup]
  cases argument with
  | cons c rest => simp
  | nil =>
    obtain ⟨dialect, past, groups, statements⟩ := reader
    cases groups with
    | nil => simp [Fits]
    | cons group outer =>
      cases parent : group.isParent <;> cases query : group.hasQuery
      · simp [Fits, parent, query]
      · cases known : statements.any (·.name == qualifiedName (group :: outer)) with
        | false =>
          have fresh : ∀ statement ∈ statements,
              statement.name ≠ qualifiedName (group :: outer) := by
            simpa using known
          simpa [Fits, statementsAfter, parent, query, known] using fun _ => fresh
        | true =>
          have taken : ∃ statement ∈ statements,
              statement.name = qualifiedName (group :: outer) := by
            simpa using known
          simpa [Fits, parent, query, known] using fun fresh => absurd taken (by simpa using fresh)
      · simp [Fits, statementsAfter, parent]
      · simp [Fits, statementsAfter, parent]

theorem editHeader_eq_ok_iff {what : String} {edit : OpenGroup → Except LineFault OpenGroup} :
    reader.editHeader what edit = .ok next ↔
      TakesHeader reader.groups ∧ ∃ edited, reader.groups.head?.map edit = some (.ok edited) ∧
        { reader with groups := edited :: reader.groups.tail } = next := by
  rw [editHeader]
  obtain ⟨dialect, past, groups, statements⟩ := reader
  cases groups with
  | nil => simp [TakesHeader]
  | cons group outer =>
    cases query : group.hasQuery <;> cases parent : group.isParent <;>
      cases edited : edit group <;> simp [TakesHeader, query, parent, edited]

theorem addDescription_eq_ok_iff {argument : List Char} :
    reader.addDescription argument = .ok next ↔
      Fits reader.groups reader.statements (.directive (.description argument)) ∧
        { reader with
          groups := onInnermost (·.take (.directive (.description argument))) reader.groups } =
            next := by
  rw [addDescription, editHeader_eq_ok_iff, Fits]
  cases reader.groups with
  | nil => simp [TakesHeader]
  | cons group outer => simp [onInnermost, OpenGroup.take]

theorem addVariable_eq_ok_iff {argument : List Char} :
    reader.addVariable argument = .ok next ↔
      Line.WellFormed (.directive (.variable argument)) ∧
        Fits reader.groups reader.statements (.directive (.variable argument)) ∧
          { reader with
            groups := onInnermost (·.take (.directive (.variable argument))) reader.groups } =
              next := by
  rw [addVariable, Line.WellFormed, Fits]
  cases split : VariableLine.split? argument with
  | none => simp
  | some parts =>
    by_cases reserved : String.ofList parts.name = reservedName
    · simp [reserved]
    · cases declared : Declaration.read parts.type parts.default? with
      | error fault => simp [reserved, declared]
      | ok declaration =>
        simp only [if_neg reserved, declared, editHeader_eq_ok_iff]
        cases reader.groups with
        | nil => simp [TakesHeader]
        | cons group outer =>
          cases known : group.declarations.contains (String.ofList parts.name) <;>
            simp [onInnermost, OpenGroup.take, split, declared, reserved, known]

theorem addQuery_eq_ok_iff {text : List Char} :
    reader.addQuery text = .ok next ↔
      Fits reader.groups reader.statements (.query text) ∧
        { reader with groups := onInnermost (·.take (.query text)) reader.groups } = next := by
  rw [addQuery]
  obtain ⟨dialect, past, groups, statements⟩ := reader
  cases groups with
  | nil => simp [Fits]
  | cons group outer =>
    cases parent : group.isParent <;> simp [Fits, onInnermost, OpenGroup.take, parent]

theorem addComment_eq (reader : Reader) (text : List Char) :
    reader.addComment text =
      { reader with groups := onInnermost (·.take (.comment text)) reader.groups } := by
  obtain ⟨dialect, past, groups, statements⟩ := reader
  cases groups with
  | nil => rfl
  | cons group outer =>
    cases query : group.hasQuery <;> simp [addComment, onInnermost, OpenGroup.take, query]

theorem readLine_eq_ok_iff {path : Path} {number : Nat} {line : Line} :
    reader.readLine path number line = .ok next ↔
      line.WellFormed ∧ line.InTime reader.pastDirective ∧
        Fits reader.groups reader.statements line ∧ reader.advance path number line = next := by
  cases line with
  | comment text =>
    simp [readLine, addComment_eq, Line.WellFormed, Line.InTime, Fits, advance, dialectAfter,
      groupsAfter, statementsAfter, Line.isDirective]
  | query text =>
    simp [readLine, atLine_eq_ok_iff, addQuery_eq_ok_iff, Line.WellFormed, Line.InTime, advance,
      dialectAfter, groupsAfter, statementsAfter, Line.isDirective]
  | directive directive =>
    have marked : reader.readLine path number (.directive directive) = .ok next ↔
        ∃ middle, reader.readDirective path number directive = .ok middle ∧
          { middle with pastDirective := true } = next := by
      rw [readLine]
      cases reader.readDirective path number directive <;> simp
    rw [marked]
    cases directive with
    | bare =>
      have unchanged : onInnermost (·.take (.directive .bare)) reader.groups = reader.groups := by
        cases reader.groups <;> rfl
      simp [readDirective, Line.WellFormed, Line.InTime, Fits, advance, dialectAfter, groupsAfter,
        statementsAfter, Line.isDirective, unchanged]
    | dialect argument =>
      have unchanged : onInnermost (·.take (.directive (.dialect argument))) reader.groups =
          reader.groups := by
        cases reader.groups <;> rfl
      simp [readDirective, atLine_eq_ok_iff, readDialect_eq_ok_iff, Line.WellFormed, Line.InTime,
        Fits, advance, dialectAfter, groupsAfter, statementsAfter, Line.isDirective, unchanged,
        and_assoc]
    | opening argument =>
      simp [readDirective, atLine_eq_ok_iff, openGroup_eq_ok_iff, Line.WellFormed, Line.InTime,
        advance, dialectAfter, groupsAfter, statementsAfter, Line.isDirective, and_assoc]
    | closing argument =>
      simp [readDirective, closeGroup_eq_ok_iff, Line.WellFormed, Line.InTime,
        advance, dialectAfter, groupsAfter, Line.isDirective, and_assoc]
    | description argument =>
      simp [readDirective, atLine_eq_ok_iff, addDescription_eq_ok_iff, Line.WellFormed, Line.InTime,
        advance, dialectAfter, groupsAfter, statementsAfter, Line.isDirective, and_assoc]
    | «variable» argument =>
      simp [readDirective, atLine_eq_ok_iff, addVariable_eq_ok_iff, Line.InTime,
        advance, dialectAfter, groupsAfter, statementsAfter, Line.isDirective, and_assoc]
    | unknown body => simp [readDirective, Line.WellFormed]

end Reader

end QueryContract
