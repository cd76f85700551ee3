import QueryContract.Contract.Parameters
import QueryContract.Proofs.Contract.Recording

/-!
The parameters of an entry as a plain computation. The comparison of a later variant with the base,
without its notices, and what it makes of the parameters of the variants before it.
-/

namespace QueryContract

def Declaration.SameShape (left right : Declaration) : Prop :=
  left.scalar = right.scalar ∧ left.nullable = right.nullable ∧ left.list = right.list

theorem Declaration.shapeDifference_eq (left right : Declaration) :
    left.shapeDifference right =
      (if left.scalar = right.scalar then [] else [.type]) ++
        (if left.nullable = right.nullable then [] else [.nullable]) ++
          (if left.list = right.list then [] else [.list]) := by
  have shapes : left.shapeDifference right =
      [.type, .nullable, .list].filter fun aspect => !left.agreesOn right aspect := by
    rw [shapeDifference, difference, List.filter_filter]
    simp only [List.filter_cons, List.filter_nil, Aspect.isShape, Bool.true_and, Bool.false_and,
      Bool.false_eq_true, if_false]
  rw [shapes]
  by_cases scalar : left.scalar = right.scalar <;>
    by_cases nullable : left.nullable = right.nullable <;>
      by_cases list : left.list = right.list <;> simp [agreesOn, scalar, nullable, list]

theorem Declaration.shapeDifference_eq_nil_iff (left right : Declaration) :
    left.shapeDifference right = [] ↔ left.SameShape right := by
  rw [shapeDifference_eq]
  simp [SameShape]

namespace Parameters

/-- Compares a parameter of the base with its declaration in a later variant. -/
def compared (operation : String) (base other : Statement) (parameter : Parameter) :
    Except Conflict Parameter :=
  match other.declaration? parameter.name with
  | none => .ok parameter
  | some declaration =>
    if parameter.declaration.shapeDifference declaration = [] then
      .ok { parameter with
        optionality := putFile other.file declaration.optional parameter.optionality }
    else
      .error ⟨operation, parameter.name, base.file, other.file,
        parameter.declaration.shapeDifference declaration⟩

def withAdditional (base other : Statement) (additional : Association String Optionality)
    (declared : String × Declaration) : Association String Optionality :=
  if (base.declaration? declared.1).isSome then additional
  else
    additional.put declared.1
      (putFile other.file declared.2.optional ((additional.get? declared.1).getD []))

def additionalAfter (base other : Statement) (additional : Association String Optionality) :
    Association String Optionality :=
  other.declarations.pairs.foldl (withAdditional base other) additional

def withVariant (operation : String) (base : Statement) (parameters : Parameters)
    (other : Statement) : Except Conflict Parameters := do
  let canonical ← parameters.canonical.mapM (compared operation base other)
  pure ⟨canonical, additionalAfter base other parameters.additional⟩

/-- The notices that a variable of the base gives rise to. A conflict is no notice. -/
def comparisonNotices (operation : String) (base other : Statement)
    (declared : String × Declaration) : List Notice :=
  match other.declaration? declared.1 with
  | none => [.absentFromVariant operation declared.1 base.file other.file]
  | some declaration =>
    if declared.2.shapeDifference declaration = [] ∧ declared.2.optional ≠ declaration.optional then
      [.driftingOptionality operation declared.1 base.file declared.2.optional other.file]
    else []

/-- The notices that a variable of a later variant gives rise to. -/
def additionalNotices (operation : String) (base other : Statement)
    (declared : String × Declaration) : List Notice :=
  if (base.declaration? declared.1).isSome then []
  else [.onlyInVariant operation declared.1 declared.2.optional other.file base.file]

/-- The notices of a later variant, up to the first conflict. -/
def variantNotices (operation : String) (base : Statement) (parameters : Parameters)
    (other : Statement) : List Notice :=
  Recording.noticesOfAll (compared operation base other)
      (fun parameter =>
        comparisonNotices operation base other (parameter.name, parameter.declaration))
      parameters.canonical ++
    Recording.following (parameters.canonical.mapM (compared operation base other)) fun _ =>
      other.declarations.pairs.flatMap (additionalNotices operation base other)

theorem compareParameter_leaves (operation : String) (base other : Statement)
    (parameter : Parameter) :
    (compareParameter operation base other parameter).Leaves
      (compared operation base other parameter)
      (comparisonNotices operation base other (parameter.name, parameter.declaration)) := by
  intro log
  simp only [compareParameter, compared, comparisonNotices]
  cases other.declaration? parameter.name with
  | none => rfl
  | some declaration =>
    dsimp only
    generalize parameter.declaration.shapeDifference declaration = differing
    generalize parameter.declaration.optional = left
    generalize declaration.optional = right
    cases differing <;> cases left <;> cases right <;> simp <;> rfl

theorem addAdditional_leaves (operation : String) (base other : Statement)
    (additional : Association String Optionality) (declared : String × Declaration) :
    (addAdditional operation base other additional declared).Leaves
      (.ok (withAdditional base other additional declared))
      (additionalNotices operation base other declared) := by
  intro log
  simp only [addAdditional, withAdditional, additionalNotices]
  split <;> simp <;> rfl

theorem addVariant_leaves (operation : String) (base : Statement) (parameters : Parameters)
    (other : Statement) :
    (addVariant operation base parameters other).Leaves
      (withVariant operation base parameters other)
      (variantNotices operation base parameters other) := by
  apply (Recording.Leaves.mapM (compareParameter_leaves operation base other) _).bind
  intro canonical
  exact (Recording.Leaves.foldl (addAdditional_leaves operation base other) _ _).bind_pure _

theorem ofEntry_leaves (entry : Entry) :
    (ofEntry entry).Leaves
      (entry.others.foldlM (withVariant entry.name entry.base) (ofBase entry.base))
      (Recording.noticesOfRun (withVariant entry.name entry.base)
        (variantNotices entry.name entry.base) (ofBase entry.base) entry.others) :=
  Recording.Leaves.foldlM (addVariant_leaves entry.name entry.base) entry.others _

theorem ofEntry_answers (entry : Entry) :
    (ofEntry entry).Answers
      (entry.others.foldlM (withVariant entry.name entry.base) (ofBase entry.base)) :=
  (ofEntry_leaves entry).answers

end Parameters

end QueryContract
