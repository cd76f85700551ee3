import QueryContract.Interchange.StatementJson
import QueryContract.Proofs.Association
import QueryContract.Proofs.Interchange.Printing

/-!
Statements read back from their JSON text.
-/

namespace QueryContract

open Number (Binary64)

/-- The doubles among the defaults. -/
def Statement.floats (statement : Statement) : List Binary64 :=
  statement.declarations.pairs.filterMap fun (_, declaration) =>
    match declaration.fallback with
    | some (.float value) => some value
    | _ => none

namespace Interchange

open Json (Legible)

theorem int64?_toInt (value : Int64) : Number.int64? value.toInt = some value := by
  have half : (Nat.pow 2 63 : Nat) = 9223372036854775808 := rfl
  rw [Number.int64?, half, if_pos ⟨value.le_toInt, value.toInt_lt⟩, Int64.ofInt_toInt]

namespace DefaultJson

theorem read?_write (fallback : Fallback) : read? (write fallback) = some fallback := by
  cases fallback with
  | int value => exact congrArg (Option.map Fallback.int) (int64?_toInt value)
  | _ => rfl

example : read? (.object [("kind", .string "now"), ("kind", .string "now")]) = none := rfl

theorem readDefault?_write (fallback : Fallback) :
    DeclarationJson.readDefault? (some (write fallback)) = some (some fallback) := by
  cases fallback with
  | int value => exact congrArg (Option.map some) (read?_write (.int value))
  | _ => rfl

theorem legible_write {fallback : Fallback}
    (reads : ∀ value, fallback = .float value →
      JsonNumber.read? (Json.realText value).toList = some (.real value)) :
    (write fallback).Legible := by
  have kind (name : String) : Legible (kindNamed name none) :=
    .object (List.forall_mem_singleton.mpr (.string name))
  have valued (name : String) {value : Json} (h : value.Legible) :
      Legible (kindNamed name (some value)) :=
    .object (List.forall_mem_cons.mpr ⟨.string name, List.forall_mem_singleton.mpr h⟩)
  cases fallback with
  | null => exact kind "null"
  | now => exact kind "now"
  | int value =>
    exact valued "int" (.integer value.le_toInt (Int.lt_trans value.toInt_lt (by decide)))
  | float value => exact valued "float" (.real (reads value rfl))
  | bool value => exact valued "bool" (.bool value)
  | string value => exact valued "string" (.string value)

end DefaultJson

namespace DeclarationJson

theorem read?_write (declaration : Declaration) : read? (write declaration) = some declaration := by
  obtain ⟨scalar, nullable, list, optional, fallback⟩ := declaration
  have named : Scalar.named? scalar.name = some scalar :=
    (Scalar.named?_eq_some_iff scalar.name scalar).mpr rfl
  have default : readDefault? (some ((fallback.map DefaultJson.write).getD .null)) =
      some fallback := by
    cases fallback with
    | none => rfl
    | some fallback => exact DefaultJson.readDefault?_write fallback
  have fields : fields? ["type", "nullable", "list", "optional", "default"]
      (write ⟨scalar, nullable, list, optional, fallback⟩) =
        some [some (.string scalar.name), some (.bool nullable), some (.bool list),
          some (.bool optional), some ((fallback.map DefaultJson.write).getD .null)] := rfl
  rw [read?, fields]
  simp [unitName?, named, Json.bool?, default]

theorem legible_write {declaration : Declaration}
    (reads : ∀ value, declaration.fallback = some (.float value) →
      JsonNumber.read? (Json.realText value).toList = some (.real value)) :
    (write declaration).Legible := by
  have default : Legible ((declaration.fallback.map DefaultJson.write).getD .null) := by
    cases fallback : declaration.fallback with
    | none => exact .null
    | some value =>
      exact DefaultJson.legible_write fun number same => reads number (by rw [fallback, same])
  refine .object ?_
  simp only [List.forall_mem_cons]
  exact ⟨.string _, .bool _, .bool _, .bool _, default, nofun⟩

end DeclarationJson

namespace StatementJson

variable {statement : Statement}

theorem readVariables?_write (declarations : Association String Declaration) :
    readVariables? (writeVariables declarations) = some declarations := by
  have members (pairs : List (String × Declaration)) :
      (pairs.map fun (name, declaration) => (name, DeclarationJson.write declaration)).mapM
        readVariable? = some pairs := by
    induction pairs with
    | nil => rfl
    | cons pair rest ih =>
      have first : readVariable? (pair.1, DeclarationJson.write pair.2) = some pair := by
        rw [readVariable?, DeclarationJson.read?_write]
        rfl
      rw [List.map_cons, List.mapM_cons, first, ih]
      rfl
  have whole := members declarations.pairs
  rw [writeVariables.eq_def, readVariables?.eq_def]
  simp only [whole, Option.map_some, Association.ofList_pairs]

theorem read?_write (statement : Statement) : read? (write statement) = some statement := by
  obtain ⟨name, query, declarations, doc, file, line⟩ := statement
  have fields : fields? ["name", "query", "variables", "doc", "sourceFile", "sourceLine"]
      (write ⟨name, query, declarations, doc, file, line⟩) =
        some [some (.string name), some (.string query), some (writeVariables declarations),
          some (.string doc), some (.string file.text), some (.integer line)] := rfl
  rw [read?, fields]
  simp [Json.string?, readVariables?_write, line?]

theorem legible_write (fits : statement.line < Nat.pow 2 64)
    (reads : ∀ value ∈ statement.floats,
      JsonNumber.read? (Json.realText value).toList = some (.real value)) :
    (write statement).Legible := by
  have held : Legible (writeVariables statement.declarations) := by
    refine .object fun member inside => ?_
    obtain ⟨⟨name, declaration⟩, declared, rfl⟩ := List.mem_map.mp inside
    refine DeclarationJson.legible_write fun value fallback => reads value ?_
    exact List.mem_filterMap.mpr ⟨(name, declaration), declared, by simp only [fallback]⟩
  refine .object ?_
  simp only [List.forall_mem_cons]
  exact ⟨.string _, .string _, held, .string _, .string _,
    .integer (by omega) (by exact_mod_cast fits), nofun⟩

end StatementJson

/-- A statement comes back from its compact JSON text as it is, with its variables in their order.
    Its line is a number of 64 bits, and its doubles are finite ones whose printed forms read back
    to them. -/
theorem statement_comes_back (statement : Statement) (fits : statement.line < Nat.pow 2 64)
    (finite : ∀ value ∈ statement.floats, value.isFinite = true)
    (reads : ∀ value ∈ statement.floats,
      JsonNumber.read? (realLayout.text value).toList = some (.real value)) :
    StatementJson.ofText? (StatementJson.text statement) = some statement := by
  have printed : ∀ value ∈ statement.floats,
      JsonNumber.read? (Json.realText value).toList = some (.real value) := by
    intro value member
    rw [Json.realText, if_pos (finite value member)]
    exact reads value member
  rw [StatementJson.ofText?, StatementJson.text,
    (StatementJson.legible_write fits printed).read?_compact, Option.bind_some,
    StatementJson.read?_write]

/-- Four and a half. -/
def fourAndHalf : Binary64 := .ofQuotient false 9 2

def escapedStatement : Statement where
  name := "a\"\x01.b"
  query := "SELECT\n:\\"
  declarations := .ofList
    [("\té", ⟨.float, true, false, true, some (.float fourAndHalf)⟩),
      ("m", ⟨.timestamp, true, false, true, some .null⟩), ("l", ⟨.int, false, true, false, none⟩),
      ("", ⟨.int, false, false, true, some (.int (-7))⟩)]
  doc := ""
  file := ⟨"d/\x7f.sql"⟩
  line := 12

theorem escapedStatement_comes_back :
    escapedStatement.line < Nat.pow 2 64 ∧
      (∀ value ∈ escapedStatement.floats, value.isFinite = true) ∧
      (∀ value ∈ escapedStatement.floats,
        JsonNumber.read? (realLayout.text value).toList = some (.real value)) ∧
      StatementJson.ofText? (StatementJson.text escapedStatement) = some escapedStatement := by
  have floats : escapedStatement.floats = [fourAndHalf] := by decide +kernel
  have finite : ∀ value ∈ escapedStatement.floats, value.isFinite = true := by
    rw [floats]
    decide +kernel
  have reads : ∀ value ∈ escapedStatement.floats,
      JsonNumber.read? (realLayout.text value).toList = some (.real value) := by
    have half : ((JsonNumber.read? (realLayout.text fourAndHalf).toList).map fun
      | .real value => value = fourAndHalf
      | _ => false) = some true := by decide +kernel
    obtain ⟨json, read, same⟩ := Option.map_eq_some_iff.mp half
    rw [floats, List.forall_mem_singleton, read]
    cases json with
    | real value => rw [of_decide_eq_true same]
    | _ => cases same
  have fits : escapedStatement.line < Nat.pow 2 64 := by decide
  exact ⟨fits, finite, reads, statement_comes_back escapedStatement fits finite reads⟩

end Interchange

end QueryContract
