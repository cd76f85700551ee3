import Mathlib.Data.List.Forall2
import QueryContract.Proofs.Contract.Operations

/-!
What a merge leaves in the log, whether or not it ends in a conflict. A variant is compared parameter
by parameter, an entry variant by variant and a list of entries entry by entry. The first conflict
ends all three, and what was noticed before it stays.
-/

namespace QueryContract

variable {α β ε : Type}

instance (left right : Declaration) : Decidable (left.SameShape right) :=
  inferInstanceAs (Decidable (_ ∧ _ ∧ _))

/-- The items up to the first one that stops, with that one. -/
def throughFirst (stops : α → Bool) : List α → List α
  | [] => []
  | item :: rest => if stops item then [item] else item :: throughFirst stops rest

theorem Recording.noticesOfAll_eq_takeWhile {check : α → Except ε β} {notices : α → List Notice}
    (silent : ∀ item, (fault? (check item)).isSome = true → notices item = []) (items : List α) :
    noticesOfAll check notices items =
      (items.takeWhile fun item => (fault? (check item)).isNone).flatMap notices := by
  induction items with
  | nil => rfl
  | cons item rest ih =>
    have quiet := silent item
    rw [noticesOfAll, List.takeWhile_cons]
    cases checked : check item with
    | error fault =>
      rw [checked] at quiet
      rw [quiet rfl]
      rfl
    | ok value =>
      rw [following, ih]
      rfl

namespace Statement

/-- The conflict of a later statement with the base over one parameter of the base. -/
def conflictOn? (operation : String) (base other : Statement) (declared : String × Declaration) :
    Option Conflict :=
  match other.declaration? declared.1 with
  | none => none
  | some declaration =>
    if declared.2.SameShape declaration then none
    else some ⟨operation, declared.1, base.file, other.file, declared.2.shapeDifference declaration⟩

/-- The conflict over the first parameter of the base, in the order of the base, that has one. -/
def conflict? (operation : String) (base other : Statement) : Option Conflict :=
  base.declarations.pairs.findSome? (base.conflictOn? operation other)

/-- The notices of a later statement: one by one those of the parameters of the base, up to the one
    in conflict, and after all of them those of the parameters that the base lacks. -/
def report (operation : String) (base other : Statement) : List Notice :=
  (base.declarations.pairs.takeWhile fun declared =>
      (base.conflictOn? operation other declared).isNone).flatMap
    (Parameters.comparisonNotices operation base other) ++
  if (base.conflict? operation other).isSome then []
  else other.declarations.pairs.flatMap (Parameters.additionalNotices operation base other)

theorem conflict?_eq_none_iff {operation : String} {base other : Statement} :
    base.conflict? operation other = none ↔ base.Compatible other := by
  rw [conflict?, List.findSome?_eq_none_iff]
  constructor
  · intro agrees name left right declared declaredOther
    have none := agrees (name, left) ((Association.get?_eq_some_iff _ _ _).mp declared)
    simpa [conflictOn?, declaredOther] using none
  · intro compatible pair member
    have declared := Parameters.declaration?_of_mem_pairs member
    unfold conflictOn?
    cases declaredOther : other.declaration? pair.1 with
    | none => rfl
    | some declaration => exact if_pos (compatible _ _ _ declared declaredOther)

end Statement

namespace Entry

def conflict? (entry : Entry) : Option Conflict :=
  entry.others.findSome? (entry.base.conflict? entry.name)

def report (entry : Entry) : List Notice :=
  (throughFirst (fun other => (entry.base.conflict? entry.name other).isSome) entry.others).flatMap
    (entry.base.report entry.name)

end Entry

namespace Parameters

variable {operation : String} {base other : Statement} {parameters : Parameters}

/-- The parameters are named and declared as in the base. -/
def DeclaredBy (base : Statement) (parameters : Parameters) : Prop :=
  parameters.canonical.map (fun parameter => (parameter.name, parameter.declaration)) =
    base.declarations.pairs

theorem declaredBy_ofBase (base : Statement) : DeclaredBy base (ofBase base) := by
  unfold DeclaredBy ofBase
  rw [List.map_map]
  exact List.map_id _

theorem fault?_compared (operation : String) (base other : Statement) (parameter : Parameter) :
    fault? (compared operation base other parameter) =
      base.conflictOn? operation other (parameter.name, parameter.declaration) := by
  unfold compared Statement.conflictOn?
  dsimp only
  cases other.declaration? parameter.name with
  | none => rfl
  | some declaration =>
    simp only [Declaration.shapeDifference_eq_nil_iff]
    split <;> rfl

theorem declaration_of_compared {parameter next : Parameter}
    (h : compared operation base other parameter = .ok next) :
    (next.name, next.declaration) = (parameter.name, parameter.declaration) := by
  unfold compared at h
  split at h
  · cases h; rfl
  · split at h <;> cases h
    rfl

theorem comparisonNotices_of_conflict {declared : String × Declaration}
    (h : (base.conflictOn? operation other declared).isSome = true) :
    comparisonNotices operation base other declared = [] := by
  unfold Statement.conflictOn? at h
  unfold comparisonNotices
  cases declaredOther : other.declaration? declared.1 with
  | none => rw [declaredOther] at h; cases h
  | some declaration =>
    rw [declaredOther] at h
    simp only [Declaration.shapeDifference_eq_nil_iff]
    by_cases shape : declared.2.SameShape declaration
    · dsimp only at h
      rw [if_pos shape] at h
      cases h
    · exact if_neg fun both => shape both.1

theorem declaration_of_mapM {canonical next : List Parameter}
    (h : canonical.mapM (compared operation base other) = .ok next) :
    next.map (fun parameter => (parameter.name, parameter.declaration)) =
      canonical.map fun parameter => (parameter.name, parameter.declaration) := by
  induction canonical generalizing next with
  | nil => cases h; rfl
  | cons parameter rest ih =>
    obtain ⟨value, later, first, others, rfl⟩ := cons_of_mapM_eq_ok h
    rw [List.map_cons, List.map_cons, declaration_of_compared first, ih others]

theorem fault?_mapM_compared (operation : String) (other : Statement)
    (declared : DeclaredBy base parameters) :
    fault? (parameters.canonical.mapM (compared operation base other)) =
      base.conflict? operation other := by
  rw [fault?_mapM, Statement.conflict?, ← declared, List.findSome?_map]
  simp only [fault?_compared]
  rfl

theorem fault?_withVariant (operation : String) (other : Statement)
    (declared : DeclaredBy base parameters) :
    fault? (withVariant operation base parameters other) = base.conflict? operation other := by
  rw [← fault?_mapM_compared operation other declared, withVariant]
  cases parameters.canonical.mapM (compared operation base other) <;> rfl

theorem DeclaredBy.withVariant {next : Parameters} (declared : DeclaredBy base parameters)
    (h : withVariant operation base parameters other = .ok next) : DeclaredBy base next := by
  unfold Parameters.withVariant at h
  cases compares : parameters.canonical.mapM (compared operation base other) with
  | error conflict => rw [compares] at h; cases h
  | ok canonical =>
    rw [compares] at h
    cases h
    exact (declaration_of_mapM compares).trans declared

theorem variantNotices_eq_report (declared : DeclaredBy base parameters) :
    variantNotices operation base parameters other = base.report operation other := by
  have silent (parameter : Parameter)
      (h : (fault? (compared operation base other parameter)).isSome = true) :
      comparisonNotices operation base other (parameter.name, parameter.declaration) = [] := by
    rw [fault?_compared] at h
    exact comparisonNotices_of_conflict h
  have ended := fault?_mapM_compared operation other declared
  unfold variantNotices Statement.report
  rw [Recording.noticesOfAll_eq_takeWhile silent, ← ended, ← declared, List.takeWhile_map,
    List.flatMap_map]
  simp only [fault?_compared]
  cases parameters.canonical.mapM (compared operation base other) <;> rfl

/-- The later variants are taken in up to the first conflict, and the notices are theirs. -/
theorem run_of_declaredBy (operation : String) (others : List Statement)
    (declared : DeclaredBy base parameters) :
    fault? (others.foldlM (withVariant operation base) parameters) =
        others.findSome? (base.conflict? operation) ∧
      Recording.noticesOfRun (withVariant operation base) (variantNotices operation base) parameters
          others =
        (throughFirst (fun other => (base.conflict? operation other).isSome) others).flatMap
          (base.report operation) := by
  induction others generalizing parameters with
  | nil => exact ⟨rfl, rfl⟩
  | cons other rest ih =>
    have first := fault?_withVariant operation other declared
    rw [List.foldlM_cons, List.findSome?_cons, Recording.noticesOfRun, throughFirst,
      variantNotices_eq_report declared, ← first]
    cases taken : Parameters.withVariant operation base parameters other with
    | error conflict =>
      refine ⟨rfl, ?_⟩
      exact (List.append_nil _).trans (List.flatMap_singleton _ _).symm
    | ok next =>
      obtain ⟨ended, notices⟩ := ih (declared.withVariant taken)
      refine ⟨ended, ?_⟩
      rw [Recording.following, notices]
      rfl

theorem ofEntry_reported (entry : Entry) : ∃ outcome,
    fault? outcome = entry.conflict? ∧ (ofEntry entry).Leaves outcome entry.report := by
  obtain ⟨ended, notices⟩ := run_of_declaredBy entry.name entry.others (declaredBy_ofBase entry.base)
  have leaves := ofEntry_leaves entry
  rw [notices] at leaves
  exact ⟨_, ended, leaves⟩

end Parameters

namespace Namer

open Naming (identifierOf methodOf methodKey)

/-- The statement among those named before, latest first, whose names have a key. -/
def holder? (key : GeneratedNames → String) (wanted : String)
    (named : List (String × GeneratedNames)) : Option String :=
  (named.find? fun earlier => key earlier.2 = wanted).map Prod.fst

/-- The notices of naming a statement: one if the identifier that it wanted is held, and one if the
    method that it wanted is held in whatever case. -/
def collisionReport (stripped : String) (named : List (String × GeneratedNames))
    (statement : String) (names : GeneratedNames) : List Notice :=
  let identifierHolder := holder? GeneratedNames.identifier (identifierOf statement) named
  let methodHolder := holder? (fun earlier => methodKey earlier.method)
    (methodKey (methodOf stripped names.identifier)) named
  (identifierHolder.map fun first => .takenIdentifier first statement names.identifier).toList ++
    (methodHolder.map fun first => .takenMethod first statement names.method).toList

/-- The namer after it has given these names. -/
def holding (stripped : String) (named : List (String × GeneratedNames)) : Namer where
  stripped := stripped
  identifiers := named.map fun (statement, names) => (names.identifier, statement)
  methods := named.map fun (statement, names) => (methodKey names.method, statement)

theorem lookup_eq_holder? (key : GeneratedNames → String) (wanted : String)
    (named : List (String × GeneratedNames)) :
    (named.map fun earlier => (key earlier.2, earlier.1)).lookup wanted =
      holder? key wanted named := by
  unfold holder?
  induction named with
  | nil => rfl
  | cons earlier rest ih =>
    rw [List.map_cons, List.lookup_cons, List.find?_cons]
    by_cases same : key earlier.2 = wanted
    · simp [same]
    · rw [beq_false_of_ne (Ne.symm same), decide_eq_false same]
      exact ih

theorem holder_choose (key : String → String) (numbered : Nat → String) (wanted : String)
    (holders : Naming.Holders) :
    (Naming.choose key numbered wanted holders).2 = holders.lookup (key wanted) := by
  unfold Naming.choose
  cases holders.lookup (key wanted) <;> rfl

theorem collisions_holding (stripped : String) (named : List (String × GeneratedNames))
    (statement : String) :
    (holding stripped named).collisions statement =
      collisionReport stripped named statement ((holding stripped named).namesOf statement) := by
  unfold collisions collisionReport Naming.chooseIdentifier Naming.chooseMethod
  simp only [holder_choose]
  have identifiers := lookup_eq_holder? GeneratedNames.identifier (identifierOf statement) named
  have methods := lookup_eq_holder? (fun names => methodKey names.method)
    (methodKey (methodOf stripped ((holding stripped named).namesOf statement).identifier)) named
  rw [← identifiers, ← methods]
  rfl

end Namer

namespace Contract

variable {stripped : String} {entries : List Entry}

/-- The notices of entries with the names that they get, up to the first entry in conflict: of each
    entry those of its variants, and if it has no conflict those of its names. -/
def report (stripped : String) (named : List (String × GeneratedNames)) :
    List (Entry × GeneratedNames) → List Notice
  | [] => []
  | (entry, names) :: rest =>
    entry.report ++
      if entry.conflict?.isSome then []
      else
        Namer.collisionReport stripped named entry.name names ++
          report stripped ((entry.name, names) :: named) rest

theorem operationsOf_reported (stripped : String) (named : List (String × GeneratedNames))
    (entries : List Entry) : ∃ outcome,
    fault? outcome = entries.findSome? Entry.conflict? ∧
      (operationsOf (.holding stripped named) entries).Leaves outcome
        (report stripped named
          (entries.zip ((Namer.holding stripped named).handOut (entries.map Entry.name)))) := by
  induction entries generalizing named with
  | nil => exact ⟨.ok [], rfl, Recording.leaves_pure []⟩
  | cons entry rest ih =>
    obtain ⟨outcome, ended, merged⟩ := Parameters.ofEntry_reported entry
    rw [List.findSome?_cons, List.map_cons, Namer.handOut, List.zip_cons_cons, report, ← ended]
    cases outcome with
    | error conflict =>
      refine ⟨.error conflict, rfl, ?_⟩
      rw [fault?, Option.isSome_some, if_pos rfl, List.append_nil]
      exact (merged.bind_error _).bind_error _
    | ok parameters =>
      let namer := Namer.holding stripped named
      let operation := Operation.ofEntry entry parameters (namer.namesOf entry.name)
      have added : (addEntry namer entry).Leaves (.ok (operation, namer.after entry.name))
          (entry.report ++ namer.collisions entry.name) :=
        merged.bind_ok ((namer.nameStatement_leaves entry.name).bind_pure fun named =>
          (Operation.ofEntry entry parameters named.1, named.2))
      obtain ⟨later, ended, read⟩ := ih ((entry.name, namer.namesOf entry.name) :: named)
      refine ⟨later >>= fun operations => pure (operation :: operations), ?_, ?_⟩
      · exact (fault?_bind_pure _ _).trans ended
      · have all : (operationsOf namer (entry :: rest)).Leaves _ _ :=
          added.bind_ok (read.bind_pure fun operations => operation :: operations)
        rw [List.append_assoc, Namer.collisions_holding] at all
        exact all

theorem merges_of_operationsOf {namer : Namer} {log last : NoticeLog} {operations : List Operation}
    (h : (operationsOf namer entries).run.run log = (.ok operations, last)) :
    List.Forall₂ Operation.Merges operations entries := by
  induction entries generalizing namer log operations with
  | nil => cases h; exact .nil
  | cons entry rest ih =>
    obtain ⟨parameters, middle, _, others, merged, read, rfl⟩ := cons_of_operationsOf h
    exact .cons ⟨parameters, _, log, middle, merged, rfl⟩ (ih read)

/-- A merge fails with the conflict of the first entry that has one, and otherwise gives an operation
    for each entry. Either way the log is what it was, and after it what the entries up to that
    point gave rise to. -/
theorem merging_reported (stripped : String) (entries : List Entry) (log : NoticeLog) :
    (∀ entry earlier conflict,
        ((Parameters.ofEntry entry).run.run earlier).1 = .error conflict ↔
          entry.conflict? = some conflict) ∧
      (∀ conflict, ((ofEntries stripped entries).run.run log).1 = .error conflict ↔
        entries.findSome? Entry.conflict? = some conflict) ∧
      (∀ contract, ((ofEntries stripped entries).run.run log).1 = .ok contract →
        List.Forall₂ Operation.Merges contract.operations entries ∧
          contract.operations.map Operation.generated =
            (Namer.new stripped).handOut (entries.map Entry.name)) ∧
      ((ofEntries stripped entries).run.run log).2 =
        log.extend (report stripped []
          (entries.zip ((Namer.new stripped).handOut (entries.map Entry.name)))) := by
  obtain ⟨outcome, ended, read⟩ := operationsOf_reported stripped [] entries
  have merged : (ofEntries stripped entries).Leaves _ _ := read.bind_pure Contract.mk
  refine ⟨?_, ?_, ?_, congrArg Prod.snd (merged log)⟩
  · intro entry earlier conflict
    obtain ⟨result, found, leaves⟩ := Parameters.ofEntry_reported entry
    rw [leaves earlier, ← found]
    exact fault?_eq_some_iff.symm
  · intro conflict
    rw [merged log, ← ended, ← fault?_bind_pure outcome Contract.mk]
    exact fault?_eq_some_iff.symm
  · intro contract succeeded
    have run : (ofEntries stripped entries).run.run log = (.ok contract, _) :=
      Prod.ext succeeded rfl
    exact ⟨merges_of_operationsOf (operationsOf_of_ofEntries run), generated_of_ofEntries run⟩

end Contract

end QueryContract
