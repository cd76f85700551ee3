import QueryContract.Proofs.Grammar.OwnLines
import QueryContract.Proofs.Grammar.Runs

/-!
Runs over the lines of a forest. What a forest leaves in the innermost group and among the
statements is known in advance; whether its lines fit is a matter of each group by itself, apart
from the names of the statements.
-/

namespace QueryContract

def Group.statement (path : Path) (group : Group) : Statement :=
  Reader.statementOf path group.fullName
    ((OpenGroup.opened group.name group.number).takeAll group.inside.own)

def Forest.statements (path : Path) (around : List String) (number : Nat) (forest : Forest) :
    List Statement :=
  ((forest.groups around number).filter Group.isLeaf).map (Group.statement path)

theorem Forest.statements_group (path : Path) (around : List String) (number : Nat)
    (name ending : List Char) (inside rest : Forest) :
    (group name inside ending rest).statements path around number =
      inside.statements path (around ++ [String.ofList name]) (number + 1) ++
        (if inside.hasGroup then []
          else [Group.statement path ⟨around, String.ofList name, number, inside⟩]) ++
          rest.statements path around (number + 1 + inside.lines.length + 1) := by
  rw [statements, groups, List.filter_cons, List.filter_append, Group.isLeaf]
  cases branch : inside.hasGroup with
  | true => simp [statements]
  | false => simp [groups_eq_nil_of_hasGroup branch, statements]

namespace Reader

def enclosing (groups : List OpenGroup) : List String := groups.reverse.map OpenGroup.name

theorem enclosing_onInnermost (edit : OpenGroup → OpenGroup)
    (kept : ∀ group, (edit group).name = group.name) (groups : List OpenGroup) :
    enclosing (onInnermost edit groups) = enclosing groups := by
  cases groups with
  | nil => rfl
  | cons group outer => simp [enclosing, onInnermost, kept]

theorem enclosing_asParent (groups : List OpenGroup) :
    enclosing (onInnermost .asParent groups) = enclosing groups :=
  enclosing_onInnermost .asParent (fun _ => rfl) groups

theorem enclosing_cons (group : OpenGroup) (outer : List OpenGroup) :
    enclosing (group :: outer) = enclosing outer ++ [group.name] := by
  simp [enclosing]

theorem enclosing_opened (name : String) (number : Nat) (groups : List OpenGroup) :
    enclosing (.opened name number :: onInnermost .asParent groups) =
      enclosing groups ++ [name] := by
  rw [enclosing_cons, enclosing_asParent]
  rfl

theorem groupsAfter_of_plain {line : Line} (plain : line.isBracket = false)
    (groups : List OpenGroup) (number : Nat) :
    groupsAfter groups number line = onInnermost (·.take line) groups := by
  unfold groupsAfter
  split
  · cases plain
  · cases plain
  · rfl

theorem statementsAfter_of_plain {line : Line} (plain : line.isBracket = false) (path : Path)
    (groups : List OpenGroup) (statements : List Statement) :
    statementsAfter path groups statements line = statements := by
  unfold statementsAfter
  split
  · cases plain
  · rfl

theorem onInnermost_onInnermost (first next : OpenGroup → OpenGroup) (groups : List OpenGroup) :
    onInnermost next (onInnermost first groups) =
      onInnermost (fun group => next (first group)) groups := by
  cases groups <;> rfl

theorem qualifiedName_after (name : String) (number : Nat) (inside : Forest)
    (outer : List OpenGroup) :
    qualifiedName ((OpenGroup.opened name number).after inside :: outer) =
      Group.fullName ⟨enclosing outer, name, number, inside⟩ := by
  have kept : ((OpenGroup.opened name number).after inside).name = name :=
    OpenGroup.name_takeAll _ _
  rw [qualifiedName, ← enclosing, enclosing_cons, kept, Group.fullName]

theorem statementsAfter_closing (path : Path) (name : String) (number : Nat) (inside : Forest)
    (outer : List OpenGroup) (statements : List Statement) (ending : List Char) :
    statementsAfter path ((OpenGroup.opened name number).after inside :: outer) statements
        (.directive (.closing ending)) =
      statements ++ if inside.hasGroup then []
        else [Group.statement path ⟨enclosing outer, name, number, inside⟩] := by
  have branch : ((OpenGroup.opened name number).after inside).isParent = inside.hasGroup :=
    Bool.false_or _
  rw [statementsAfter, branch, qualifiedName_after]
  cases inside.hasGroup with
  | true => exact (List.append_nil statements).symm
  | false => rfl

structure Passed (path : Path) (reader : Reader) (number : Nat) (forest : Forest)
    (last : Reader) : Prop where
  groups : last.groups = onInnermost (·.after forest) reader.groups
  statements : last.statements =
    reader.statements ++ forest.statements path (enclosing reader.groups) number

section Advance

variable {path : Path} {reader last : Reader} {number : Nat} {name : List Char} {line : Line}
  {inside : Forest}

theorem groups_advance_of_plain (plain : line.isBracket = false) :
    (reader.advance path number line).groups = onInnermost (·.take line) reader.groups :=
  groupsAfter_of_plain plain reader.groups number

theorem statements_advance_of_plain (plain : line.isBracket = false) :
    (reader.advance path number line).statements = reader.statements :=
  statementsAfter_of_plain plain path reader.groups reader.statements

theorem groups_advance_opening :
    (reader.advance path number (.directive (.opening name))).groups =
      .opened (String.ofList name) number :: onInnermost .asParent reader.groups := rfl

theorem statements_advance_opening :
    (reader.advance path number (.directive (.opening name))).statements = reader.statements := rfl

/-- Before its closing, a group has taken in its forest and nothing around it has changed. -/
theorem Passed.beforeClosing
    (h : Passed path (reader.advance path number (.directive (.opening name))) (number + 1) inside
      last) :
    last.groups = (OpenGroup.opened (String.ofList name) number).after inside ::
        onInnermost .asParent reader.groups ∧
      last.statements = reader.statements ++
        inside.statements path (enclosing reader.groups ++ [String.ofList name]) (number + 1) := by
  have groups := h.groups
  have statements := h.statements
  rw [groups_advance_opening] at groups statements
  rw [enclosing_opened, statements_advance_opening] at statements
  exact ⟨groups, statements⟩

/-- A whole group leaves its mark on the group around it, and its statements. -/
theorem advance_of_passed
    (h : Passed path (reader.advance path number (.directive (.opening name))) (number + 1) inside
      last) (later : Nat) (ending : List Char) :
    (last.advance path later (.directive (.closing ending))).groups =
        onInnermost .asParent reader.groups ∧
      (last.advance path later (.directive (.closing ending))).statements =
        reader.statements ++
          (inside.statements path (enclosing reader.groups ++ [String.ofList name]) (number + 1) ++
            if inside.hasGroup then []
            else [Group.statement path
              ⟨enclosing reader.groups, String.ofList name, number, inside⟩]) := by
  obtain ⟨groups, statements⟩ := h.beforeClosing
  constructor
  · change last.groups.tail = onInnermost .asParent reader.groups
    rw [groups, List.tail_cons]
  · change statementsAfter path last.groups last.statements (.directive (.closing ending)) = _
    rw [groups, statementsAfter_closing, statements, enclosing_asParent, List.append_assoc]

end Advance

theorem passed_run (path : Path) (reader : Reader) (number : Nat) (forest : Forest) :
    Passed path reader number forest (reader.run path number forest.lines) := by
  induction forest generalizing reader number with
  | nil =>
    constructor
    · cases same : reader.groups <;>
        simp [Forest.lines, run, onInnermost, OpenGroup.after_nil, same]
    · simp [Forest.lines, run, Forest.statements, Forest.groups]
  | line line plain rest ih =>
    obtain ⟨groups, statements⟩ := ih (reader.advance path number line) (number + 1)
    constructor
    · rw [Forest.lines, run, groups, groups_advance_of_plain plain, onInnermost_onInnermost]
      simp only [OpenGroup.after_line _ plain]
    · rw [Forest.lines, run, statements, groups_advance_of_plain plain,
        statements_advance_of_plain plain,
        enclosing_onInnermost _ fun group => group.name_take line]
      rfl
  | group name inside ending rest ihInside ihRest =>
    have within := ihInside (reader.advance path number (.directive (.opening name))) (number + 1)
    obtain ⟨around, closed⟩ := advance_of_passed within (number + 1 + inside.lines.length) ending
    rw [Forest.lines, run, run_append, run]
    obtain ⟨groups, statements⟩ := ihRest (((reader.advance path number
      (.directive (.opening name))).run path (number + 1) inside.lines).advance path
        (number + 1 + inside.lines.length) (.directive (.closing ending)))
          (number + 1 + inside.lines.length + 1)
    constructor
    · rw [groups, around, onInnermost_onInnermost]
      simp only [OpenGroup.after_group]
    · rw [statements, around, closed, enclosing_asParent, Forest.statements_group,
        List.append_assoc]

def Fresh (statements : List Statement) (names : List String) : Prop :=
  names.Nodup ∧ ∀ statement ∈ statements, statement.name ∉ names

theorem fresh_append_iff {statements later : List Statement} {names others : List String}
    (h : later.map Statement.name = names) :
    Fresh statements (names ++ others) ↔
      Fresh statements names ∧ Fresh (statements ++ later) others := by
  subst h
  constructor
  · rintro ⟨distinct, apart⟩
    obtain ⟨first, second, between⟩ := List.nodup_append.mp distinct
    refine ⟨⟨first, fun statement member => ?_⟩, second, fun statement member => ?_⟩
    · exact fun found => apart statement member (List.mem_append_left _ found)
    · intro found
      rcases List.mem_append.mp member with member | member
      · exact apart statement member (List.mem_append_right _ found)
      · exact between _ (List.mem_map_of_mem member) _ found rfl
  · rintro ⟨⟨first, apart⟩, second, between⟩
    constructor
    · refine List.nodup_append.mpr ⟨first, second, fun name member other found same => ?_⟩
      obtain ⟨statement, declared, rfl⟩ := List.mem_map.mp member
      exact between statement (List.mem_append_right _ declared) (same ▸ found)
    · intro statement member found
      rcases List.mem_append.mp found with found | found
      · exact apart statement member found
      · exact between statement (List.mem_append_left _ member) found

theorem fits_of_plain_iff {line : Line} (plain : line.isBracket = false) (formed : line.WellFormed)
    (group : OpenGroup) (outer : List OpenGroup) (statements : List Statement) :
    Fits (group :: outer) statements line ↔
      TakesLine group.hasQuery group.isParent group.declarations.contains line := by
  cases line with
  | comment text => exact ⟨fun _ => ⟨nofun, nofun, nofun⟩, fun _ => trivial⟩
  | query text => exact ⟨fun fits => ⟨fun _ => fits, nofun, nofun⟩, fun takes => takes.asQuery rfl⟩
  | directive directive =>
    cases directive with
    | bare => exact ⟨fun _ => ⟨nofun, nofun, nofun⟩, fun _ => trivial⟩
    | dialect argument => exact ⟨fun _ => ⟨nofun, nofun, nofun⟩, fun _ => trivial⟩
    | opening argument => cases plain
    | closing argument => cases plain
    | description argument =>
      exact ⟨fun fits => ⟨nofun, fun _ => fits, nofun⟩, fun takes => takes.asHeader rfl⟩
    | «variable» argument =>
      constructor
      · rintro ⟨fits, fresh⟩
        refine ⟨nofun, fun _ => fits, fun name named => ?_⟩
        obtain ⟨parts, split, rfl⟩ := Option.map_eq_some_iff.mp named
        exact fresh parts split group rfl
      · intro takes
        refine ⟨takes.asHeader rfl, fun parts split other head => ?_⟩
        cases head
        exact takes.fresh _ (by simp [Line.variableName?, split])
    | unknown body => cases formed

theorem fits_nil_iff {line : Line} (plain : line.isBracket = false) (statements : List Statement) :
    Fits [] statements line ↔ line.isContent = false := by
  cases line with
  | comment text => exact ⟨fun _ => rfl, fun _ => trivial⟩
  | query text => exact ⟨nofun, nofun⟩
  | directive directive =>
    cases directive with
    | opening argument => cases plain
    | closing argument => cases plain
    | description argument => exact ⟨nofun, nofun⟩
    | «variable» argument => exact ⟨fun fits => fits.1.elim, nofun⟩
    | _ => exact ⟨fun _ => rfl, fun _ => trivial⟩

/-- What the innermost group, or the file around all groups, takes of a forest. -/
def FitsLevel (forest : Forest) : List OpenGroup → Prop
  | [] => ∀ line ∈ forest.own, line.isContent = false
  | group :: _ =>
    Takes group.hasQuery group.hasPreface group.isParent group.declarations.contains forest.own
      forest.hasGroup

end Reader

/-- A group holds groups and no content, or no group and a query that follows its header. -/
structure Group.Regular (group : Group) : Prop where
  shape :
    group.inside.hasGroup = true ∧ (∀ line ∈ group.inside.own, line.isContent = false) ∨
      group.inside.hasGroup = false ∧ (∃ line ∈ group.inside.own, line.isQuery = true) ∧
        group.inside.own.Pairwise fun earlier later =>
          earlier.isQuery = true → later.isHeader = false
  distinct : (variableNames group.inside.own).Nodup

theorem Group.regular_iff (group : Group) : group.Regular ↔
    Takes false false false (fun _ => false) group.inside.own group.inside.hasGroup ∧
      (group.inside.hasGroup = true ∨ group.inside.own.any Line.isQuery = true) := by
  rw [List.any_eq_true]
  constructor
  · rintro ⟨⟨branch, plain⟩ | ⟨leaf, query, ordered⟩, distinct⟩
    · have noHeader : ∀ line ∈ group.inside.own, line.isHeader = false := fun line member =>
        ((Line.isContent_eq_false_iff line).mp (plain line member)).2
      refine ⟨⟨fun _ => ⟨rfl, rfl, plain⟩, nofun, nofun, ?_, distinct, fun _ _ => rfl⟩, .inl branch⟩
      exact List.pairwise_of_forall_mem_list fun earlier _ later member _ => noHeader later member
    · refine ⟨⟨?_, nofun, nofun, ordered, distinct, fun _ _ => rfl⟩, .inr query⟩
      intro branch
      rw [leaf] at branch
      cases branch
  · rintro ⟨takes, holds⟩
    refine ⟨?_, takes.distinct⟩
    cases branch : group.inside.hasGroup with
    | true => exact .inl ⟨rfl, (takes.branching branch).2.2⟩
    | false =>
      rw [branch] at holds
      exact .inr ⟨rfl, holds.resolve_left Bool.false_ne_true, takes.ordered⟩

namespace Reader

theorem fitsLevel_nil (groups : List OpenGroup) : FitsLevel .nil groups := by
  cases groups with
  | nil => simp [FitsLevel, Forest.own]
  | cons group outer =>
    constructor <;> simp [Forest.own, Forest.hasGroup, variableNames]

theorem fitsLevel_line_iff {line : Line} (plain : line.isBracket = false)
    (formed : line.WellFormed) (rest : Forest) (groups : List OpenGroup)
    (statements : List Statement) :
    FitsLevel (.line line plain rest) groups ↔
      Fits groups statements line ∧ FitsLevel rest (onInnermost (·.take line) groups) := by
  cases groups with
  | nil =>
    rw [fits_nil_iff plain]
    exact List.forall_mem_cons
  | cons group outer =>
    have known : (group.take line).declarations.contains = fun name =>
        group.declarations.contains name || line.variableName? == some name :=
      funext (group.contains_take formed)
    rw [fits_of_plain_iff plain formed, onInnermost, FitsLevel, FitsLevel, OpenGroup.hasQuery_take,
      group.hasPreface_take formed, OpenGroup.isParent_take, known]
    exact takes_cons_iff

theorem fitsLevel_group_iff (name ending : List Char) (inside rest : Forest)
    (groups : List OpenGroup) (statements : List Statement) :
    FitsLevel (.group name inside ending rest) groups ↔
      Fits groups statements (.directive (.opening name)) ∧
        FitsLevel rest (onInnermost .asParent groups) := by
  cases groups with
  | nil => exact ⟨fun fits => ⟨trivial, fits⟩, fun fits => fits.2⟩
  | cons group outer => exact takes_branch_iff rest.own

theorem fresh_singleton_iff (statements : List Statement) (name : String) :
    Fresh statements [name] ↔ ∀ statement ∈ statements, statement.name ≠ name := by
  simp [Fresh]

/-- A group that closes puts its name before those that come later, if it is a statement. -/
theorem fresh_closed_iff (path : Path) (group : Group) (statements : List Statement)
    (names : List String) :
    Fresh statements ((if group.inside.hasGroup then [] else [group.fullName]) ++ names) ↔
      (group.inside.hasGroup = false → Fresh statements [group.fullName]) ∧
        Fresh (statements ++ if group.inside.hasGroup then [] else [group.statement path])
          names := by
  cases group.inside.hasGroup with
  | true => simp
  | false =>
    have named : [group.statement path].map Statement.name = [group.fullName] := rfl
    simpa using fresh_append_iff named

/-- A group is regular if it takes its lines and can be closed after them. -/
theorem regular_iff_fits (name : String) (number : Nat) (inside : Forest) (outer : List OpenGroup)
    (statements : List Statement) (ending : List Char) :
    (Group.Regular ⟨enclosing outer, name, number, inside⟩ ∧
        (inside.hasGroup = false →
          Fresh statements [Group.fullName ⟨enclosing outer, name, number, inside⟩])) ↔
      FitsLevel inside (.opened name number :: outer) ∧
        Fits ((OpenGroup.opened name number).after inside :: outer) statements
          (.directive (.closing ending)) := by
  have branch : ((OpenGroup.opened name number).after inside).isParent = inside.hasGroup :=
    Bool.false_or _
  have query : ((OpenGroup.opened name number).after inside).hasQuery =
      inside.own.any Line.isQuery :=
    (OpenGroup.hasQuery_takeAll _ _).trans (Bool.false_or _)
  have level : FitsLevel inside (.opened name number :: outer) ↔
      Takes false false false (fun _ => false) inside.own inside.hasGroup := Iff.rfl
  rw [level, Fits, branch, query, qualifiedName_after, Group.regular_iff, fresh_singleton_iff]
  cases inside.hasGroup <;> simp [and_assoc]

end Reader

def Forest.statementNames (around : List String) (number : Nat) (forest : Forest) : List String :=
  ((forest.groups around number).filter Group.isLeaf).map Group.fullName

theorem Forest.names_statements (path : Path) (around : List String) (number : Nat)
    (forest : Forest) :
    (forest.statements path around number).map Statement.name =
      forest.statementNames around number := by
  rw [statements, List.map_map]
  rfl

theorem Forest.statementNames_group (around : List String) (number : Nat)
    (name ending : List Char) (inside rest : Forest) :
    (group name inside ending rest).statementNames around number =
      inside.statementNames (around ++ [String.ofList name]) (number + 1) ++
        ((if inside.hasGroup then []
          else [Group.fullName ⟨around, String.ofList name, number, inside⟩]) ++
          rest.statementNames around (number + 1 + inside.lines.length + 1)) := by
  have names := congrArg (List.map Statement.name)
    (statements_group ⟨""⟩ around number name ending inside rest)
  rw [List.map_append, List.map_append, names_statements, names_statements, names_statements,
    List.append_assoc] at names
  rw [names]
  cases inside.hasGroup <;> rfl

namespace Reader

theorem fitsAll_lines_iff (path : Path) (reader : Reader) (number : Nat) {forest : Forest}
    (formed : ∀ line ∈ forest.lines, line.WellFormed) :
    reader.FitsAll path number forest.lines ↔
      FitsLevel forest reader.groups ∧
        (∀ group ∈ forest.groups (enclosing reader.groups) number, group.Regular) ∧
          Fresh reader.statements (forest.statementNames (enclosing reader.groups) number) := by
  induction forest generalizing reader number with
  | nil =>
    simp [Forest.lines, FitsAll, fitsLevel_nil, Forest.groups, Forest.statementNames, Fresh]
  | line line plain rest ih =>
    obtain ⟨first, later⟩ := List.forall_mem_cons.mp formed
    rw [Forest.lines, FitsAll, ih _ _ later, groups_advance_of_plain plain,
      statements_advance_of_plain plain, enclosing_onInnermost _ fun group => group.name_take line,
      fitsLevel_line_iff plain first rest reader.groups reader.statements, and_assoc]
    rfl
  | group name inside ending rest ihInside ihRest =>
    have formedInside : ∀ line ∈ inside.lines, line.WellFormed := fun line member =>
      formed line (by simp [Forest.lines, member])
    have formedRest : ∀ line ∈ rest.lines, line.WellFormed := fun line member =>
      formed line (by simp [Forest.lines, member])
    have within := passed_run path (reader.advance path number (.directive (.opening name)))
      (number + 1) inside
    obtain ⟨around, closed⟩ := advance_of_passed within (number + 1 + inside.lines.length) ending
    obtain ⟨groups, statements⟩ := within.beforeClosing
    have regular := regular_iff_fits (String.ofList name) number inside
      (onInnermost .asParent reader.groups)
      (reader.statements ++ inside.statements path (enclosing reader.groups ++ [String.ofList name])
        (number + 1)) ending
    rw [enclosing_asParent] at regular
    have named := fresh_closed_iff path
      ⟨enclosing reader.groups, String.ofList name, number, inside⟩
      (reader.statements ++ inside.statements path (enclosing reader.groups ++ [String.ofList name])
        (number + 1))
      (rest.statementNames (enclosing reader.groups) (number + 1 + inside.lines.length + 1))
    rw [List.append_assoc] at named
    rw [Forest.lines, FitsAll, fitsAll_append_iff, FitsAll, ihInside _ _ formedInside,
      ihRest _ _ formedRest, around, closed, groups, statements, groups_advance_opening,
      statements_advance_opening, enclosing_opened, enclosing_asParent,
      fitsLevel_group_iff name ending inside rest reader.groups reader.statements,
      Forest.statementNames_group, fresh_append_iff (Forest.names_statements path _ _ inside),
      Forest.groups, List.forall_mem_cons, List.forall_mem_append, named]
    constructor
    · rintro ⟨opens, ⟨level, regularInside, fresh⟩, closes, levelRest, regularRest, freshRest⟩
      obtain ⟨regularGroup, freshGroup⟩ := regular.mpr ⟨level, closes⟩
      exact ⟨⟨opens, levelRest⟩, ⟨regularGroup, regularInside, regularRest⟩, fresh, freshGroup,
        freshRest⟩
    · rintro ⟨⟨opens, levelRest⟩, ⟨regularGroup, regularInside, regularRest⟩, fresh, freshGroup,
        freshRest⟩
      obtain ⟨level, closes⟩ := regular.mp ⟨regularGroup, freshGroup⟩
      exact ⟨opens, ⟨level, regularInside, fresh⟩, closes, levelRest, regularRest, freshRest⟩

end Reader

end QueryContract
