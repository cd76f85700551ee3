import QueryContract.Proofs.Contract.Compatibility
import QueryContract.Proofs.Naming.Collisions

/-!
When a merge has nothing to report: all variants of an entry agree up to their defaults, and no
two entries want one name.
-/

namespace QueryContract

open Naming (identifierOf methodOf methodKey)

/-- Declarations that differ in the default value at most. -/
def Declaration.SameUpToDefault (left right : Declaration) : Prop :=
  { left with fallback := right.fallback } = right

theorem Declaration.sameUpToDefault_iff {left right : Declaration} :
    left.SameUpToDefault right ↔ left.SameShape right ∧ left.optional = right.optional := by
  cases left
  cases right
  simp [SameUpToDefault, SameShape, and_assoc]

/-- Both declare the same names, and each of them in the same way up to its default. -/
structure Statement.Agrees (base other : Statement) : Prop where
  names : ∀ name, (base.declaration? name).isSome = (other.declaration? name).isSome
  declarations : ∀ name left right, base.declaration? name = some left →
    other.declaration? name = some right → left.SameUpToDefault right

theorem Statement.agrees_self (statement : Statement) : statement.Agrees statement where
  names := fun _ => rfl
  declarations := by
    intro name left right declared declared'
    cases declared.symm.trans declared'
    rfl

variable {base other : Statement}

namespace Parameters

variable {operation : String}

theorem comparisonNotices_eq_nil_iff {declared : String × Declaration} :
    comparisonNotices operation base other declared = [] ↔
      ∃ right, other.declaration? declared.1 = some right ∧
        (declared.2.SameShape right → declared.2.optional = right.optional) := by
  rw [comparisonNotices]
  cases other.declaration? declared.1 with
  | none => simp
  | some right => simp [Declaration.shapeDifference_eq_nil_iff]

theorem additionalNotices_eq_nil_iff {declared : String × Declaration} :
    additionalNotices operation base other declared = [] ↔
      (base.declaration? declared.1).isSome = true := by
  rw [additionalNotices]
  cases base.declaration? declared.1 <;> simp

end Parameters

/-- Every way in which a later variant drifts from the base leaves a notice. -/
theorem Statement.agrees_iff (operation : String) :
    base.Agrees other ↔ base.Compatible other ∧ base.drifts operation other = [] := by
  simp only [drifts, List.append_eq_nil_iff, List.flatMap_eq_nil_iff,
    Parameters.comparisonNotices_eq_nil_iff, Parameters.additionalNotices_eq_nil_iff]
  constructor
  · intro agrees
    have same {name left right} (declared : base.declaration? name = some left)
        (declared' : other.declaration? name = some right) :=
      Declaration.sameUpToDefault_iff.mp (agrees.declarations name left right declared declared')
    refine ⟨fun name left right declared declared' => (same declared declared').1, ?_, ?_⟩
    · intro pair member
      have declared := Parameters.declaration?_of_mem_pairs member
      have known := agrees.names pair.1
      rw [declared] at known
      obtain ⟨right, declared'⟩ := Option.isSome_iff_exists.mp known.symm
      exact ⟨right, declared', fun _ => (same declared declared').2⟩
    · intro pair member
      rw [agrees.names, Parameters.declaration?_of_mem_pairs member]
      rfl
  · rintro ⟨compatible, kept, known⟩
    have kept' {name left} (declared : base.declaration? name = some left) :=
      kept (name, left) ((Association.get?_eq_some_iff _ _ _).mp declared)
    constructor
    · intro name
      rw [Bool.eq_iff_iff, Option.isSome_iff_exists, Option.isSome_iff_exists]
      constructor
      · rintro ⟨left, declared⟩
        obtain ⟨right, declared', -⟩ := kept' declared
        exact ⟨right, declared'⟩
      · rintro ⟨right, declared'⟩
        have member := (Association.get?_eq_some_iff _ _ _).mp declared'
        exact Option.isSome_iff_exists.mp (known (name, right) member)
    · intro name left right declared declared'
      have shape := compatible name left right declared declared'
      obtain ⟨found, declared'', optional⟩ := kept' declared
      cases declared'.symm.trans declared''
      exact Declaration.sameUpToDefault_iff.mpr ⟨shape, optional shape⟩

theorem Entry.agrees_iff {entry : Entry} :
    (∀ variant ∈ entry.variants, entry.base.Agrees variant) ↔
      entry.Compatible ∧ entry.drifts = [] := by
  rw [variants, List.forall_mem_cons, drifts, List.flatMap_eq_nil_iff]
  constructor
  · rintro ⟨-, agree⟩
    have both : ∀ other ∈ entry.others, entry.base.Compatible other ∧
        entry.base.drifts entry.name other = [] := fun other member =>
      (Statement.agrees_iff entry.name).mp (agree other member)
    exact ⟨fun other member => (both other member).1, fun other member => (both other member).2⟩
  · rintro ⟨compatible, none⟩
    exact ⟨entry.base.agrees_self, fun other member =>
      (Statement.agrees_iff entry.name).mpr ⟨compatible other member, none other member⟩⟩

namespace Contract

variable {entries : List Entry} {stripped : String} {log : NoticeLog}

theorem notices_eq_nil_iff {namer : Namer} :
    notices namer entries = [] ↔
      (∀ entry ∈ entries, entry.drifts = []) ∧
        namer.allCollisions (entries.map Entry.name) = [] := by
  induction entries generalizing namer with
  | nil => simp [notices, Namer.allCollisions]
  | cons entry rest ih =>
    rw [notices, List.append_eq_nil_iff, List.append_eq_nil_iff, ih, List.forall_mem_cons,
      List.map_cons, Namer.allCollisions, List.append_eq_nil_iff]
    constructor
    · rintro ⟨⟨head, collisions⟩, tail, later⟩
      exact ⟨⟨head, tail⟩, collisions, later⟩
    · rintro ⟨⟨head, tail⟩, collisions, later⟩
      exact ⟨⟨head, collisions⟩, tail, later⟩

/-- A merge that ends well and leaves the log alone is one of compatible entries without notices. -/
theorem ofEntries_silent_iff (distinct : ∀ entry ∈ entries, entry.DistinctFiles) :
    (∃ contract, (ofEntries stripped entries).run.run log = (.ok contract, log)) ↔
      (∀ entry ∈ entries, entry.Compatible) ∧ notices (.new stripped) entries = [] := by
  constructor
  · rintro ⟨contract, silent⟩
    have compatible := compatible_of_ofEntries distinct silent
    obtain ⟨contract', leaves⟩ := ofEntries_leaves_of_compatible stripped distinct compatible
    have same := (leaves log).symm.trans silent
    exact ⟨compatible, NoticeLog.extend_eq_self_iff.mp (congrArg Prod.snd same)⟩
  · rintro ⟨compatible, none⟩
    obtain ⟨contract, leaves⟩ := ofEntries_leaves_of_compatible stripped distinct compatible
    refine ⟨contract, ?_⟩
    rw [leaves log, none, NoticeLog.extend_nil]

theorem generated_of_silent {contract : Contract} {last : NoticeLog}
    (none : (Namer.new stripped).allCollisions (entries.map Entry.name) = [])
    (h : (ofEntries stripped entries).run.run log = (.ok contract, last)) :
    ∀ operation ∈ contract.operations, operation.generated = .wanted stripped operation.name := by
  have generated := generated_of_ofEntries h
  rw [Namer.handOut_of_silent none, ← names_of_ofEntries h, List.map_map] at generated
  exact List.map_inj_left.mp generated

end Contract

/-- A merge is silent exactly when all variants agree and no two operations want one name, and then
    every operation has the names that it wants. -/
theorem silence_means_agreement (statements : List Statement) (stripped : String)
    (log : NoticeLog) :
    let entries := Entry.ofStatements statements
    let merged := (Contract.ofEntries stripped entries).run.run log
    ((∃ contract, merged = (.ok contract, log)) ↔
        (∀ entry ∈ entries, ∀ variant ∈ entry.variants, entry.base.Agrees variant) ∧
          (entries.map fun entry => identifierOf entry.name).Nodup ∧
            (entries.map fun entry =>
              methodKey (methodOf stripped (identifierOf entry.name))).Nodup) ∧
      ∀ contract, merged = (.ok contract, log) → ∀ operation ∈ contract.operations,
        operation.identifier = identifierOf operation.name ∧
          operation.method = methodOf stripped (identifierOf operation.name) := by
  intro entries merged
  have distinct : ∀ entry ∈ entries, entry.DistinctFiles :=
    fun _ => Entry.distinctFiles_of_mem_ofStatements
  have silent : (∃ contract, merged = (.ok contract, log)) ↔
      (∀ entry ∈ entries, entry.Compatible) ∧ (∀ entry ∈ entries, entry.drifts = []) ∧
        (Namer.new stripped).allCollisions (entries.map Entry.name) = [] := by
    rw [← Contract.notices_eq_nil_iff]
    exact Contract.ofEntries_silent_iff distinct
  constructor
  · have names := Namer.allCollisions_new_eq_nil_iff stripped (entries.map Entry.name)
    rw [List.map_map, List.map_map] at names
    rw [silent, names]
    simp only [Entry.agrees_iff, forall_and, and_assoc]
    rfl
  · intro contract ended operation member
    have none := (silent.mp ⟨contract, ended⟩).2.2
    have same := Contract.generated_of_silent none ended operation member
    exact ⟨congrArg GeneratedNames.identifier same, congrArg GeneratedNames.method same⟩

def agreeingStatements : List Statement :=
  let variant (file : String) (default : Int64) : Statement :=
    ⟨"get-user", "SELECT 1", .ofList [("id", ⟨.int, false, false, true, some (.int default)⟩)], "",
      ⟨file⟩, 1⟩
  [variant "a.sql" 1, variant "b.sql" 2, ⟨"list", "SELECT 2", .empty, "", ⟨"b.sql"⟩, 5⟩]

theorem silence_of_agreeingStatements :
    (∀ entry ∈ Entry.ofStatements agreeingStatements, ∀ variant ∈ entry.variants,
        entry.base.Agrees variant) ∧
      ∃ contract,
        (Contract.ofEntries "get" (Entry.ofStatements agreeingStatements)).run.run .empty =
            (.ok contract, .empty) ∧
          ∀ operation ∈ contract.operations, operation.identifier = identifierOf operation.name ∧
            operation.method = methodOf "get" (identifierOf operation.name) := by
  have sorted : Entry.ofStatements agreeingStatements =
      (Collector.empty.addAll agreeingStatements).entries :=
    List.mergeSort_of_pairwise (by decide +kernel)
  have merges : ((Contract.ofEntries "get"
      (Entry.ofStatements agreeingStatements)).run.run .empty).1.isOk = true := by
    rw [sorted]
    decide +kernel
  have quiet : ((Contract.ofEntries "get"
      (Entry.ofStatements agreeingStatements)).run.run .empty).2 = .empty := by
    rw [sorted]
    decide +kernel
  obtain ⟨contract, last, merged⟩ := Recording.exists_of_isOk merges
  obtain rfl : last = .empty := by rw [← quiet, merged]
  obtain ⟨agrees, unnumbered⟩ := silence_means_agreement agreeingStatements "get" .empty
  exact ⟨(agrees.mp ⟨contract, merged⟩).1, contract, merged, unnumbered contract merged⟩

end QueryContract
