import QueryContract.Association
import QueryContract.Declaration.Variable
import QueryContract.Path

/-!
Documents: what one declaration file holds, a list of named statements.
-/

namespace QueryContract

structure Statement where
  name : String
  query : String
  declarations : Association String Declaration
  doc : String
  file : Path
  /-- The line that opens the statement, counted from 1. -/
  line : Nat
  deriving DecidableEq, Repr

def Statement.declaration? (statement : Statement) (name : String) : Option Declaration :=
  statement.declarations.get? name

structure Document where
  path : Path
  dialect : Option String
  statements : List Statement
  deriving DecidableEq, Repr

end QueryContract
