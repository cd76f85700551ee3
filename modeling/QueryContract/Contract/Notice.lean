import QueryContract.Path

/-!
Notices: what a run reports without failing, in the order in which it was found.
-/

namespace QueryContract

inductive NoticeKind where
  | driftingOptionality
  | absentFromVariant
  | onlyInVariant
  | takenIdentifier
  deriving DecidableEq, Repr

namespace NoticeKind

def name : NoticeKind → String
  | driftingOptionality => "optionalityDrift"
  | absentFromVariant => "missingInVariant"
  | onlyInVariant => "extraInVariant"
  | takenIdentifier => "identifierCollision"

def all : List NoticeKind :=
  [driftingOptionality, absentFromVariant, onlyInVariant, takenIdentifier]

end NoticeKind

inductive Notice where
  /-- A parameter that is optional in one variant and required in the other. -/
  | driftingOptionality (operation parameter : String) (basePath : Path) (optional : Bool)
      (variantPath : Path)
  /-- A parameter of the base that a later variant does not declare. -/
  | absentFromVariant (operation parameter : String) (basePath variantPath : Path)
  /-- A parameter of a later variant that the base does not declare. -/
  | onlyInVariant (operation parameter : String) (optional : Bool) (variantPath basePath : Path)
  | takenIdentifier (first second identifier : String)
  | takenMethod (first second method : String)
  deriving DecidableEq, Repr

namespace Notice

def kind : Notice → NoticeKind
  | driftingOptionality .. => .driftingOptionality
  | absentFromVariant .. => .absentFromVariant
  | onlyInVariant .. => .onlyInVariant
  | takenIdentifier .. | takenMethod .. => .takenIdentifier

def operation : Notice → String
  | driftingOptionality operation .. | absentFromVariant operation ..
  | onlyInVariant operation .. => operation
  | takenIdentifier _ second _ | takenMethod _ second _ => second

def optionality (optional : Bool) : String := if optional then "optional" else "required"

def message : Notice → String
  | driftingOptionality operation parameter basePath optional variantPath =>
    ":" ++ parameter ++ " is " ++ optionality optional ++ " for " ++ operation ++ " in "
      ++ basePath.text ++ " but " ++ optionality (!optional) ++ " in " ++ variantPath.text
  | absentFromVariant operation parameter basePath variantPath =>
    ":" ++ parameter ++ " is defined for " ++ operation ++ " in " ++ basePath.text
      ++ " but not in " ++ variantPath.text
  | onlyInVariant operation parameter optional variantPath basePath =>
    ":" ++ parameter ++ " is " ++ optionality optional ++ " for " ++ operation ++ " in "
      ++ variantPath.text ++ " but not defined in " ++ basePath.text
  | takenIdentifier first second identifier =>
    "Similar query names " ++ first ++ " and " ++ second
      ++ ", generating numerically-assigned identifier " ++ identifier
  | takenMethod first second method =>
    "Similar method names for " ++ first ++ " and " ++ second
      ++ ", generating numerically-assigned method " ++ method

end Notice

/-- The notices of one run, oldest first. -/
structure NoticeLog where
  notices : List Notice
  deriving DecidableEq, Repr

namespace NoticeLog

def empty : NoticeLog := ⟨[]⟩

def record (log : NoticeLog) (notice : Notice) : NoticeLog := ⟨log.notices ++ [notice]⟩

def count (log : NoticeLog) (kind : NoticeKind) : Nat :=
  (log.notices.filter fun notice => notice.kind = kind).length

@[simp] theorem notices_record (log : NoticeLog) (notice : Notice) :
    (log.record notice).notices = log.notices ++ [notice] := rfl

end NoticeLog

/-- A computation that may fail and that leaves its notices in the log in both cases. -/
abbrev Recording (ε : Type) := ExceptT ε (StateM NoticeLog)

def notify (notice : Notice) : Recording ε Unit := modify fun log => log.record notice

end QueryContract
