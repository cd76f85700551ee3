import QueryContract.Contract.Operation
import QueryContract.Proofs.Contract.Recording
import QueryContract.Proofs.Naming.Spelling

/-!
The names of one run. A namer keeps every name that it has handed out, so the next one differs from
all of them; by induction the names of a whole run are distinct, whatever statements come in.
-/

namespace QueryContract

open Naming (isIdentifier isMethodName methodKey)

namespace Namer

def namesOf (namer : Namer) (statement : String) : GeneratedNames :=
  let identifier := (Naming.chooseIdentifier namer.identifiers (Naming.identifierOf statement)).1
  ⟨identifier, (Naming.chooseMethod namer.methods (Naming.methodOf namer.stripped identifier)).1⟩

def after (namer : Namer) (statement : String) : Namer :=
  let names := namer.namesOf statement
  { namer with
    identifiers := (names.identifier, statement) :: namer.identifiers
    methods := (methodKey names.method, statement) :: namer.methods }

/-- The notices of naming a statement: one for each of its names that was held already. -/
def collisions (namer : Namer) (statement : String) : List Notice :=
  let names := namer.namesOf statement
  let identifierHolder :=
    (Naming.chooseIdentifier namer.identifiers (Naming.identifierOf statement)).2
  let methodHolder :=
    (Naming.chooseMethod namer.methods (Naming.methodOf namer.stripped names.identifier)).2
  (identifierHolder.map fun first => .takenIdentifier first statement names.identifier).toList ++
    (methodHolder.map fun first => .takenMethod first statement names.method).toList

def handOut (namer : Namer) : List String → List GeneratedNames
  | [] => []
  | statement :: rest => namer.namesOf statement :: (namer.after statement).handOut rest

def allCollisions (namer : Namer) : List String → List Notice
  | [] => []
  | statement :: rest =>
    namer.collisions statement ++ (namer.after statement).allCollisions rest

/-- Names statements one after another and records the numbers that had to be added. -/
def nameAll (namer : Namer) : List String → Recording ε (List GeneratedNames)
  | [] => pure []
  | statement :: rest => do
    let (names, next) ← namer.nameStatement statement
    let others ← next.nameAll rest
    pure (names :: others)

theorem nameStatement_leaves (namer : Namer) (statement : String) :
    (namer.nameStatement statement : Recording ε (GeneratedNames × Namer)).Leaves
      (.ok (namer.namesOf statement, namer.after statement)) (namer.collisions statement) := by
  intro log
  simp only [nameStatement, namesOf, after, collisions]
  cases (Naming.chooseIdentifier namer.identifiers (Naming.identifierOf statement)) with
  | mk identifier holder =>
    cases (Naming.chooseMethod namer.methods (Naming.methodOf namer.stripped identifier)) with
    | mk method methodHolder =>
      cases holder <;> cases methodHolder <;>
        simp only [Option.map, Option.toList, NoticeLog.extend_append, NoticeLog.extend_nil] <;> rfl

theorem nameStatement_answers (namer : Namer) (statement : String) :
    (namer.nameStatement statement : Recording ε (GeneratedNames × Namer)).Answers
      (.ok (namer.namesOf statement, namer.after statement)) :=
  (namer.nameStatement_leaves statement).answers

theorem nameAll_leaves (namer : Namer) (statements : List String) :
    (namer.nameAll statements : Recording ε (List GeneratedNames)).Leaves
      (.ok (namer.handOut statements)) (namer.allCollisions statements) := by
  induction statements generalizing namer with
  | nil => exact Recording.leaves_pure []
  | cons statement rest ih =>
    exact (namer.nameStatement_leaves statement).bind fun named =>
      (ih named.2).bind_pure fun others => named.1 :: others

theorem nameAll_answers (namer : Namer) (statements : List String) :
    (namer.nameAll statements : Recording ε (List GeneratedNames)).Answers
      (.ok (namer.handOut statements)) :=
  (namer.nameAll_leaves statements).answers

theorem length_handOut (namer : Namer) (statements : List String) :
    (namer.handOut statements).length = statements.length := by
  induction statements generalizing namer with
  | nil => rfl
  | cons statement rest ih => simp only [handOut, List.length_cons, ih]

/-- If each key that comes out is new and is held from then on, then a run never repeats a key. -/
theorem handOut_distinct (key : GeneratedNames → String) (held : Namer → List String)
    (fresh : ∀ namer statement, key (namer.namesOf statement) ∉ held namer)
    (kept : ∀ namer statement,
      held (namer.after statement) = key (namer.namesOf statement) :: held namer)
    (namer : Namer) (statements : List String) :
    ((namer.handOut statements).map key).Nodup ∧
      ∀ names ∈ namer.handOut statements, key names ∉ held namer := by
  induction statements generalizing namer with
  | nil => exact ⟨List.nodup_nil, by simp [handOut]⟩
  | cons statement rest ih =>
    obtain ⟨distinct, unheld⟩ := ih (namer.after statement)
    rw [kept] at unheld
    simp only [handOut, List.map_cons, List.nodup_cons, List.mem_map]
    refine ⟨⟨?_, distinct⟩, ?_⟩
    · rintro ⟨names, member, same⟩
      exact unheld names member (same ▸ List.mem_cons_self)
    · intro names member
      rcases List.mem_cons.mp member with rfl | later
      · exact fresh namer statement
      · exact fun known => unheld names later (List.mem_cons_of_mem _ known)

theorem identifiers_handOut_distinct (namer : Namer) (statements : List String) :
    ((namer.handOut statements).map GeneratedNames.identifier).Nodup :=
  (handOut_distinct GeneratedNames.identifier (fun namer => namer.identifiers.map Prod.fst)
    (fun namer _ => Naming.chooseIdentifier_free namer.identifiers _) (fun _ _ => rfl) namer
    statements).1

theorem methods_handOut_distinct (namer : Namer) (statements : List String) :
    ((namer.handOut statements).map fun names => methodKey names.method).Nodup :=
  (handOut_distinct (fun names => methodKey names.method) (fun namer => namer.methods.map Prod.fst)
    (fun namer _ => Naming.chooseMethod_free namer.methods _) (fun _ _ => rfl) namer statements).1

theorem isMethodName_namesOf (namer : Namer) (statement : String) :
    isMethodName (namer.namesOf statement).method.toList = true :=
  Naming.isMethodName_chooseMethod namer.methods <|
    Naming.isMethodName_methodOf namer.stripped fun _ member =>
      Naming.isIdentifierPart_of_mem_chooseIdentifier member

theorem isMethodName_of_mem_handOut {namer : Namer} {statements : List String}
    {names : GeneratedNames} (h : names ∈ namer.handOut statements) :
    isMethodName names.method.toList = true := by
  induction statements generalizing namer with
  | nil => cases h
  | cons statement rest ih =>
    rcases List.mem_cons.mp h with rfl | later
    · exact namer.isMethodName_namesOf statement
    · exact ih later

theorem isIdentifier_of_mem_zip {namer : Namer} {statements : List String} {statement : String}
    {names : GeneratedNames} (h : (statement, names) ∈ statements.zip (namer.handOut statements))
    (named : statement ≠ "") : isIdentifier names.identifier.toList = true := by
  induction statements generalizing namer with
  | nil => cases h
  | cons first rest ih =>
    rcases List.mem_cons.mp h with same | later
    · cases same
      exact Naming.isIdentifier_chooseIdentifier namer.identifiers named
    · exact ih later

end Namer

theorem methodKey_ne_construct {method : String} (h : isMethodName method.toList = true) :
    methodKey method ≠ "__construct" := by
  intro same
  have letters : Text.lowercase method.toList = "__construct".toList := by
    rw [← same, methodKey, String.toList_ofList]
  cases text : method.toList with
  | nil =>
    rw [text] at letters
    cases letters
  | cons first later =>
    rw [text] at h letters
    cases later with
    | nil => cases (List.cons.inj letters).2
    | cons second rest =>
      -- the second character would be an underscore in lower case
      have lower : second.toLower = '_' := (List.cons.inj (List.cons.inj letters).2).1
      rw [isMethodName, List.all_cons, Bool.and_eq_true, Bool.and_eq_true] at h
      have word := Text.isAlphanum_toLower h.2.1
      rw [lower] at word
      exact absurd word (by decide)

def Operation.generated (operation : Operation) : GeneratedNames :=
  ⟨operation.identifier, operation.method⟩

/-- What the first of several entries comes to, and from where the others go on. -/
theorem Contract.cons_of_operationsOf {namer : Namer} {entry : Entry} {rest : List Entry}
    {log last : NoticeLog} {operations : List Operation}
    (h : (operationsOf namer (entry :: rest)).run.run log = (.ok operations, last)) :
    ∃ parameters middle later others,
      (Parameters.ofEntry entry).run.run log = (.ok parameters, middle) ∧
        (operationsOf (namer.after entry.name) rest).run.run later = (.ok others, last) ∧
          operations = .ofEntry entry parameters (namer.namesOf entry.name) :: others := by
  obtain ⟨⟨operation, next⟩, later, added, read⟩ := run_bind_eq_ok h
  obtain ⟨others, _, read, ended⟩ := run_bind_eq_ok read
  obtain ⟨parameters, middle, merged, named⟩ := run_bind_eq_ok added
  obtain ⟨⟨names, _⟩, _, chosen, built⟩ := run_bind_eq_ok named
  have answer := namer.nameStatement_answers (ε := Conflict) entry.name
  have same := (answer _).symm.trans (congrArg Prod.fst chosen)
  cases same
  cases built
  cases ended
  exact ⟨parameters, middle, later, others, merged, read, rfl⟩

theorem Contract.generated_of_operationsOf {namer : Namer} {entries : List Entry}
    {log last : NoticeLog} {operations : List Operation}
    (h : (operationsOf namer entries).run.run log = (.ok operations, last)) :
    operations.map Operation.generated = namer.handOut (entries.map Entry.name) := by
  induction entries generalizing namer log operations with
  | nil =>
    cases h
    rfl
  | cons entry rest ih =>
    obtain ⟨parameters, _, _, others, -, read, rfl⟩ := cons_of_operationsOf h
    simp only [List.map_cons, Namer.handOut, ih read]
    rfl

theorem Contract.generated_of_ofEntries {stripped : String} {entries : List Entry}
    {log last : NoticeLog} {contract : Contract}
    (h : (ofEntries stripped entries).run.run log = (.ok contract, last)) :
    contract.operations.map Operation.generated =
      (Namer.new stripped).handOut (entries.map Entry.name) := by
  obtain ⟨operations, _, read, ended⟩ := run_bind_eq_ok h
  cases ended
  exact generated_of_operationsOf read

/-- Distinct identifiers, and legal method names that differ by more than the case of letters. -/
structure WellNamed (generated : List GeneratedNames) : Prop where
  identifiers : (generated.map GeneratedNames.identifier).Nodup
  methods : (generated.map fun names => methodKey names.method).Nodup
  legal : ∀ names ∈ generated, isMethodName names.method.toList = true ∧
    methodKey names.method ≠ "__construct"

theorem Namer.wellNamed_handOut (namer : Namer) (statements : List String) :
    WellNamed (namer.handOut statements) where
  identifiers := namer.identifiers_handOut_distinct statements
  methods := namer.methods_handOut_distinct statements
  legal _ member :=
    have spelled := isMethodName_of_mem_handOut member
    ⟨spelled, methodKey_ne_construct spelled⟩

theorem generated_names_distinct_and_legal (stripped : String) :
    (∀ (statements : List String) (log : NoticeLog), ∃ generated last,
      ((Namer.new stripped).nameAll statements : Recording Conflict _).run.run log =
        (.ok generated, last) ∧
      generated.length = statements.length ∧ WellNamed generated ∧
      ∀ statement names, (statement, names) ∈ statements.zip generated → statement ≠ "" →
        isIdentifier names.identifier.toList = true) ∧
    ∀ (entries : List Entry) (log last : NoticeLog) (contract : Contract),
      (Contract.ofEntries stripped entries).run.run log = (.ok contract, last) →
      WellNamed (contract.operations.map Operation.generated) := by
  constructor
  · intro statements log
    have answer := (Namer.new stripped).nameAll_answers (ε := Conflict) statements log
    refine ⟨_, _, Prod.ext answer rfl, ?_, ?_, ?_⟩
    · exact (Namer.new stripped).length_handOut statements
    · exact (Namer.new stripped).wellNamed_handOut statements
    · exact fun statement names member named => Namer.isIdentifier_of_mem_zip member named
  · intro entries log last contract merged
    rw [Contract.generated_of_ofEntries merged]
    exact (Namer.new stripped).wellNamed_handOut _

def collidingEntries : List Entry :=
  ["get-user", "get_user", "getUser"].map fun name =>
    .single ⟨name, "SELECT 1", .empty, "", ⟨"a.sql"⟩, 1⟩

theorem generated_names_of_collidingEntries : ∃ contract last,
    (Contract.ofEntries "get" collidingEntries).run.run .empty = (.ok contract, last) ∧
      WellNamed (contract.operations.map Operation.generated) := by
  have merges : ((Contract.ofEntries "get" collidingEntries).run.run .empty).1.isOk = true := by
    decide +kernel
  obtain ⟨contract, last, merged⟩ := Recording.exists_of_isOk merges
  exact ⟨contract, last, merged,
    (generated_names_distinct_and_legal "get").2 collidingEntries _ _ _ merged⟩

end QueryContract
