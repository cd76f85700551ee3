import Mathlib.Data.Finset.Dedup
import Mathlib.Data.Finset.Insert
import QueryContract.Proofs.Grammar.Acceptance

/-!
The names that statements have taken. A reader that keeps them in a set of its own reads as one that
finds them among its statements: after every line the set holds the names of the statements.
-/

namespace QueryContract

open Reader (qualifiedName statementOf)

/-- A reader and the names that are taken. -/
structure NameKeeper where
  reader : Reader
  taken : Finset String
  deriving DecidableEq

/-- The reader with the names of its statements taken. -/
def Reader.withTaken (reader : Reader) : NameKeeper :=
  ⟨reader, (reader.statements.map Statement.name).toFinset⟩

namespace NameKeeper

def start : NameKeeper := ⟨.start, ∅⟩

/-- Closes the innermost group. The name of a statement must not be taken, and is taken then. -/
def closeGroup (keeper : NameKeeper) (path : Path) (line : Nat) (argument : List Char) :
    Except ReadFault NameKeeper :=
  if !argument.isEmpty then .error ⟨line, .textAfterClosing (String.ofList argument)⟩
  else
    match keeper.reader.groups with
    | [] => .error ⟨line, .unmatchedClosing⟩
    | group :: outer =>
      if group.isParent then .ok { keeper with reader := { keeper.reader with groups := outer } }
      else
        let name := qualifiedName (group :: outer)
        if !group.hasQuery then .error ⟨line, .emptyStatement name⟩
        else if name ∈ keeper.taken then .error ⟨group.line, .duplicateStatement name⟩
        else
          .ok {
            reader := { keeper.reader with
              groups := outer
              statements := keeper.reader.statements ++ [statementOf path name group] }
            taken := insert name keeper.taken }

def readLine (keeper : NameKeeper) (path : Path) (number : Nat) :
    Line → Except ReadFault NameKeeper
  | .directive (.closing argument) =>
    match keeper.closeGroup path number argument with
    | .ok next => .ok { next with reader := { next.reader with pastDirective := true } }
    | .error fault => .error fault
  | line =>
    match keeper.reader.readLine path number line with
    | .ok next => .ok { keeper with reader := next }
    | .error fault => .error fault

def readLines (path : Path) (keeper : NameKeeper) (number : Nat) :
    List Line → Except ReadFault NameKeeper
  | [] => .ok keeper
  | first :: rest =>
    match keeper.readLine path number first with
    | .ok next => next.readLines path (number + 1) rest
    | .error fault => .error fault

variable {path : Path} {number : Nat}

theorem mem_taken_withTaken {reader : Reader} {name : String} :
    name ∈ reader.withTaken.taken ↔ ∃ statement ∈ reader.statements, statement.name = name := by
  simp [Reader.withTaken]

theorem taken_concat (statements : List Statement) (statement : Statement) :
    ((statements ++ [statement]).map Statement.name).toFinset =
      insert statement.name (statements.map Statement.name).toFinset := by
  ext name
  rw [List.mem_toFinset, Finset.mem_insert, List.mem_toFinset, List.map_append, List.mem_append,
    or_comm, List.map_singleton, List.mem_singleton]

theorem closeGroup_withTaken (reader : Reader) (argument : List Char) :
    reader.withTaken.closeGroup path number argument =
      (reader.closeGroup path number argument).map Reader.withTaken := by
  obtain ⟨dialect, past, groups, statements⟩ := reader
  unfold closeGroup Reader.closeGroup
  cases argument with
  | cons c rest => rfl
  | nil =>
    cases groups with
    | nil => rfl
    | cons group outer =>
      have known : qualifiedName (group :: outer) ∈ (statements.map Statement.name).toFinset ↔
          statements.any (·.name == qualifiedName (group :: outer)) = true := by
        simp
      have added := taken_concat statements
        (statementOf path (qualifiedName (group :: outer)) group)
      cases parent : group.isParent <;> cases query : group.hasQuery <;>
        cases taken : statements.any (·.name == qualifiedName (group :: outer)) <;>
          simp only [Reader.withTaken, parent, query, known, taken, Except.map, added,
            List.isEmpty_nil, Bool.not_true, Bool.not_false, Bool.false_eq_true, if_true, if_false]
      rfl

theorem readLine_of_open {line : Line} (h : line.isClosing = false) (keeper : NameKeeper) :
    keeper.readLine path number line =
      (keeper.reader.readLine path number line).map fun next => { keeper with reader := next } := by
  unfold readLine
  split
  · cases h
  · cases keeper.reader.readLine path number line <;> rfl

/-- Only a line that closes a group takes a name. -/
theorem statements_of_open {line : Line} (h : line.isClosing = false) {reader next : Reader}
    (read : reader.readLine path number line = .ok next) : next.statements = reader.statements := by
  obtain ⟨-, -, -, rfl⟩ := Reader.readLine_eq_ok_iff.mp read
  unfold Reader.advance Reader.statementsAfter
  split
  · cases h
  · rfl

theorem readLine_withTaken (reader : Reader) (line : Line) :
    reader.withTaken.readLine path number line =
      (reader.readLine path number line).map Reader.withTaken := by
  cases closing : line.isClosing with
  | false =>
    rw [readLine_of_open closing]
    cases read : reader.readLine path number line with
    | error fault => simp only [Reader.withTaken, read, Except.map]
    | ok next =>
      simp only [Reader.withTaken, read, Except.map, statements_of_open closing read]
  | true =>
    obtain ⟨argument, rfl⟩ : ∃ argument, line = .directive (.closing argument) := by
      unfold Line.isClosing at closing
      split at closing
      · exact ⟨_, rfl⟩
      · cases closing
    rw [readLine, closeGroup_withTaken, Reader.readLine, Reader.readDirective]
    cases reader.closeGroup path number argument <;> rfl

theorem readLines_withTaken (reader : Reader) (lines : List Line) :
    readLines path reader.withTaken number lines =
      (reader.readLines path number lines).map Reader.withTaken := by
  induction lines generalizing reader number with
  | nil => rfl
  | cons line rest ih =>
    rw [readLines, Reader.readLines, readLine_withTaken]
    cases reader.readLine path number line with
    | error fault => rfl
    | ok next => exact ih next

theorem start_eq_withTaken : start = Reader.start.withTaken := rfl

end NameKeeper

end QueryContract
