import QueryContract.Proofs.Naming.Distinct

/-!
Runs of names without a number. A name gets a number if and only if it is held already, so a run is
silent exactly when the wanted names differ from each other and from the held ones, and then every
statement gets the names that it wanted.
-/

namespace QueryContract

open Naming (identifierOf methodOf methodKey)

namespace Naming

theorem choose_of_free (key : String → String) (numbered : Nat → String) {wanted : String}
    {holders : Holders} (free : key wanted ∉ holders.map Prod.fst) :
    choose key numbered wanted holders = (wanted, none) := by
  rw [← Holders.taken_eq_true_iff, Holders.taken, Option.not_isSome_iff_eq_none] at free
  rw [choose, free]

theorem holder_choose_eq_none_iff (key : String → String) (numbered : Nat → String)
    (wanted : String) (holders : Holders) :
    (choose key numbered wanted holders).2 = none ↔ key wanted ∉ holders.map Prod.fst := by
  rw [← Holders.taken_eq_true_iff, Holders.taken, choose]
  cases holders.lookup (key wanted) <;> simp

end Naming

/-- The names of a statement as long as no other statement holds them. -/
def GeneratedNames.wanted (stripped statement : String) : GeneratedNames :=
  ⟨identifierOf statement, methodOf stripped (identifierOf statement)⟩

namespace Namer

open GeneratedNames (wanted)

variable {namer : Namer} {statement : String}

/-- No statement holds the identifier or, in whatever case, the method. -/
structure IsFree (namer : Namer) (names : GeneratedNames) : Prop where
  identifier : names.identifier ∉ namer.identifiers.map Prod.fst
  method : methodKey names.method ∉ namer.methods.map Prod.fst

theorem namesOf_of_isFree (free : namer.IsFree (wanted namer.stripped statement)) :
    namer.namesOf statement = wanted namer.stripped statement := by
  have identifier : Naming.chooseIdentifier namer.identifiers (identifierOf statement) =
      (identifierOf statement, none) := Naming.choose_of_free id _ free.identifier
  have method : Naming.chooseMethod namer.methods
        (methodOf namer.stripped (identifierOf statement)) =
      (methodOf namer.stripped (identifierOf statement), none) :=
    Naming.choose_of_free methodKey _ free.method
  rw [namesOf, identifier, method]
  rfl

theorem collisions_eq_nil_iff :
    namer.collisions statement = [] ↔ namer.IsFree (wanted namer.stripped statement) := by
  have identifier : (Naming.chooseIdentifier namer.identifiers (identifierOf statement)).2 = none ↔
      identifierOf statement ∉ namer.identifiers.map Prod.fst :=
    Naming.holder_choose_eq_none_iff id _ _ _
  have method (name : String) :
      (Naming.chooseMethod namer.methods (methodOf namer.stripped name)).2 = none ↔
        methodKey (methodOf namer.stripped name) ∉ namer.methods.map Prod.fst :=
    Naming.holder_choose_eq_none_iff methodKey _ _ _
  simp only [collisions, List.append_eq_nil_iff, Option.toList_eq_nil_iff, Option.map_eq_none_iff,
    identifier, method]
  constructor
  · rintro ⟨unheld, other⟩
    have same : (namer.namesOf statement).identifier = identifierOf statement :=
      congrArg Prod.fst (Naming.choose_of_free id _ unheld)
    rw [same] at other
    exact ⟨unheld, other⟩
  · intro free
    rw [namesOf_of_isFree free]
    exact ⟨free.identifier, free.method⟩

/-- Keys that differ from each other and from those that are held. -/
def FreshKeys (held keys : List String) : Prop := keys.Nodup ∧ ∀ key ∈ keys, key ∉ held

theorem freshKeys_cons_iff {held keys : List String} {key : String} :
    FreshKeys held (key :: keys) ↔ key ∉ held ∧ FreshKeys (key :: held) keys := by
  grind [FreshKeys]

/-- A run is silent when its wanted names are new. -/
theorem allCollisions_eq_nil_iff (namer : Namer) (statements : List String) :
    namer.allCollisions statements = [] ↔
      FreshKeys (namer.identifiers.map Prod.fst) (statements.map identifierOf) ∧
        FreshKeys (namer.methods.map Prod.fst) (statements.map fun statement =>
          methodKey (methodOf namer.stripped (identifierOf statement))) := by
  induction statements generalizing namer with
  | nil => simp [allCollisions, FreshKeys]
  | cons statement rest ih =>
    rw [allCollisions, List.append_eq_nil_iff, ih, collisions_eq_nil_iff, List.map_cons,
      List.map_cons, freshKeys_cons_iff, freshKeys_cons_iff]
    -- free names are held as they were wanted, so the run goes on with their own keys held
    constructor
    · rintro ⟨free, identifiers, methods⟩
      simp only [after, namesOf_of_isFree free, List.map_cons] at identifiers methods
      exact ⟨⟨free.identifier, identifiers⟩, free.method, methods⟩
    · rintro ⟨⟨identifier, identifiers⟩, method, methods⟩
      have free : namer.IsFree (wanted namer.stripped statement) := ⟨identifier, method⟩
      simp only [after, namesOf_of_isFree free, List.map_cons]
      exact ⟨free, identifiers, methods⟩

/-- In a new run the wanted names only have to differ from each other. -/
theorem allCollisions_new_eq_nil_iff (stripped : String) (statements : List String) :
    (Namer.new stripped).allCollisions statements = [] ↔
      (statements.map identifierOf).Nodup ∧
        (statements.map fun statement =>
          methodKey (methodOf stripped (identifierOf statement))).Nodup := by
  rw [allCollisions_eq_nil_iff]
  simp [FreshKeys, Namer.new]

theorem handOut_of_silent {statements : List String}
    (silent : namer.allCollisions statements = []) :
    namer.handOut statements = statements.map (wanted namer.stripped) := by
  induction statements generalizing namer with
  | nil => rfl
  | cons statement rest ih =>
    obtain ⟨free, later⟩ := List.append_eq_nil_iff.mp silent
    rw [handOut, ih later, namesOf_of_isFree (collisions_eq_nil_iff.mp free), List.map_cons]
    rfl

end Namer

end QueryContract
