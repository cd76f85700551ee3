import QueryContract.Proofs.Grammar.Nesting
import QueryContract.Proofs.Grammar.VariableLines

/-!
The grammar of declaration files, and that a text is read without a fault exactly if its lines are
of this grammar.
-/

namespace QueryContract

structure Grammatical (lines : List Line) : Prop where
  balanced : Balanced lines
  openings : ∀ name, .directive (.opening name) ∈ lines →
    name ≠ [] ∧ ∀ c ∈ name, Text.isBlank c = false ∧ c ≠ '{' ∧ c ≠ '}' ∧ c ≠ '.'
  closings : ∀ text, .directive (.closing text) ∈ lines → text = []
  declarations : ∀ text, .directive (.variable text) ∈ lines →
    ∃ parts gap tail declaration, VariableLine.MakesUp parts gap tail text ∧
      String.ofList parts.name ≠ "this" ∧
        Declaration.read parts.type parts.default? = .ok declaration
  dialects : ∀ before name after, lines = before ++ .directive (.dialect name) :: after →
    Text.isName name = true ∧ ∀ line ∈ before, line.isDirective = false
  known : ∀ body, .directive (.unknown body) ∉ lines
  /-- Nothing but comments stands outside all groups, every group is regular, and the full names of
      the statements are distinct. -/
  nesting : ∃ forest : Forest, forest.lines = lines ∧
    (∀ line ∈ forest.own, line.isContent = false) ∧
      (∀ group ∈ forest.groups [] 1, group.Regular) ∧ (forest.statementNames [] 1).Nodup

theorem isGroupName_iff (name : List Char) : Reader.isGroupName name = true ↔
    name ≠ [] ∧ ∀ c ∈ name, Text.isBlank c = false ∧ c ≠ '{' ∧ c ≠ '}' ∧ c ≠ '.' := by
  rw [Reader.isGroupName, Bool.and_eq_true]
  simp [Reader.isNameBreak, and_assoc]

theorem wellFormed_variable_iff (text : List Char) : Line.WellFormed (.directive (.variable text)) ↔
    ∃ parts gap tail declaration, VariableLine.MakesUp parts gap tail text ∧
      String.ofList parts.name ≠ "this" ∧
        Declaration.read parts.type parts.default? = .ok declaration := by
  constructor
  · rintro ⟨parts, declaration, split, named, declared⟩
    obtain ⟨gap, tail, makesUp⟩ := VariableLine.makesUp_of_split? split
    exact ⟨parts, gap, tail, declaration, makesUp, named, declared⟩
  · rintro ⟨parts, gap, tail, declaration, makesUp, named, declared⟩
    exact ⟨parts, declaration, VariableLine.split?_of_makesUp makesUp, named, declared⟩

theorem Grammatical.wellFormed {lines : List Line} (h : Grammatical lines) :
    ∀ line ∈ lines, line.WellFormed := by
  intro line member
  cases line with
  | comment text => trivial
  | query text => trivial
  | directive directive =>
    cases directive with
    | bare => trivial
    | description argument => trivial
    | dialect argument =>
      obtain ⟨before, after, split⟩ := List.append_of_mem member
      exact (h.dialects before argument after split).1
    | opening argument => exact (isGroupName_iff argument).mpr (h.openings argument member)
    | closing argument => exact h.closings argument member
    | «variable» argument =>
      exact (wellFormed_variable_iff argument).mpr (h.declarations argument member)
    | unknown body => exact h.known body member

namespace Reader

/-- Brackets count the groups that are open. -/
theorem length_groupsAfter {groups : List OpenGroup} {statements : List Statement} {line : Line}
    (fits : Fits groups statements line) (number : Nat) :
    (groupsAfter groups number line).length + closings [line] =
      groups.length + openings [line] := by
  by_cases plain : line.isBracket = false
  · obtain ⟨opens, closes⟩ := Bool.or_eq_false_iff.mp plain
    have noOpening : openings [line] = 0 := by simp [openings, opens]
    have noClosing : closings [line] = 0 := by simp [closings, closes]
    rw [groupsAfter_of_plain plain, noOpening, noClosing]
    cases groups <;> rfl
  · cases line with
    | comment text => exact absurd rfl plain
    | query text => exact absurd rfl plain
    | directive directive =>
      cases directive with
      | opening name => cases groups <;> rfl
      | closing text =>
        cases groups with
        | nil => cases fits
        | cons group outer => rfl
      | _ => exact absurd rfl plain

theorem length_groups_run {path : Path} {reader : Reader} {number : Nat} {lines : List Line}
    (fits : reader.FitsAll path number lines) :
    (reader.run path number lines).groups.length + closings lines =
      reader.groups.length + openings lines := by
  induction lines generalizing reader number with
  | nil => rfl
  | cons line rest ih =>
    have later := ih fits.2
    have step := length_groupsAfter fits.1 number
    have here : (reader.advance path number line).groups = groupsAfter reader.groups number line :=
      rfl
    have opened : openings (line :: rest) = openings [line] + openings rest :=
      openings_append [line] rest
    have closed : closings (line :: rest) = closings [line] + closings rest :=
      closings_append [line] rest
    rw [here] at later
    rw [run, opened, closed]
    omega

theorem balanced_of_fitsAll {path : Path} {lines : List Line}
    (fits : start.FitsAll path 1 lines) (closed : (start.run path 1 lines).groups = []) :
    Balanced lines := by
  constructor
  · rintro before after rfl
    have count := length_groups_run ((fitsAll_append_iff path start 1 before after).mp fits).1
    have none : start.groups.length = 0 := rfl
    omega
  · have count := length_groups_run fits
    have none : start.groups.length = 0 := rfl
    rw [closed, List.length_nil] at count
    omega

theorem readLines_append (path : Path) (reader : Reader) (number : Nat)
    (earlier later : List Line) :
    readLines path reader number (earlier ++ later) =
      match readLines path reader number earlier with
      | .ok next => readLines path next (number + earlier.length) later
      | .error fault => .error fault := by
  induction earlier generalizing reader number with
  | nil => rfl
  | cons line rest ih =>
    rw [List.cons_append, readLines, readLines]
    cases reader.readLine path number line with
    | error fault => rfl
    | ok next =>
      dsimp only
      rw [ih, List.length_cons, Nat.add_assoc, Nat.add_comm 1]

theorem readLines_singleton (path : Path) (reader : Reader) (number : Nat) (line : Line) :
    readLines path reader number [line] = reader.readLine path number line := by
  rw [readLines]
  cases reader.readLine path number line <;> rfl

end Reader

theorem Document.exists_read_iff (path : Path) (text : String) :
    (∃ document, read path text = .ok document) ↔
      ∃ last, Reader.readLines path .start 1 (linesOf text) = .ok last ∧ last.groups = [] := by
  rw [read]
  cases Reader.readLines path .start 1 (linesOf text) with
  | error fault => simp
  | ok last =>
    cases groups : last.groups <;> simp [Reader.finish, groups]

end QueryContract
