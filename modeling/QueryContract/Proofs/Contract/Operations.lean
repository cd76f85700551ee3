import QueryContract.Proofs.Contract.Collecting
import QueryContract.Proofs.Naming.Distinct

/-!
The operations of a contract: each is made of an entry, of the parameters that its variants come to
and of the names that it got.
-/

namespace QueryContract

variable {stripped : String} {entries : List Entry} {log last : NoticeLog}

def Operation.Merges (operation : Operation) (entry : Entry) : Prop :=
  ∃ parameters names before after,
    (Parameters.ofEntry entry).run.run before = (.ok parameters, after) ∧
      operation = .ofEntry entry parameters names

namespace Contract

/-- The operation of the entry that comes after some others, with the names that it gets there. -/
def Follows (namer : Namer) (before : List Entry) (entry : Entry) (operation : Operation) : Prop :=
  operation.Merges entry ∧
    operation.generated = ((before.map Entry.name).foldl Namer.after namer).namesOf entry.name

variable {namer : Namer} {operations : List Operation}

theorem follows_of_mem_operationsOf
    (h : (operationsOf namer entries).run.run log = (.ok operations, last)) :
    ∀ operation ∈ operations, ∃ before entry rest, entries = before ++ entry :: rest ∧
      Follows namer before entry operation := by
  induction entries generalizing namer log operations with
  | nil =>
    cases h
    exact fun _ member => nomatch member
  | cons first rest ih =>
    obtain ⟨parameters, middle, _, others, merged, read, rfl⟩ := cons_of_operationsOf h
    intro operation member
    rcases List.mem_cons.mp member with rfl | member
    · exact ⟨[], first, rest, rfl, ⟨parameters, _, log, middle, merged, rfl⟩, rfl⟩
    · obtain ⟨before, entry, after, rfl, follows⟩ := ih read operation member
      exact ⟨first :: before, entry, after, rfl, follows⟩

theorem exists_follows_of_operationsOf {before rest : List Entry} {entry : Entry}
    (h : (operationsOf namer (before ++ entry :: rest)).run.run log = (.ok operations, last)) :
    ∃ operation ∈ operations, Follows namer before entry operation := by
  induction before generalizing namer log operations with
  | nil =>
    obtain ⟨parameters, middle, _, _, merged, -, rfl⟩ := cons_of_operationsOf h
    exact ⟨_, List.mem_cons_self, ⟨parameters, _, log, middle, merged, rfl⟩, rfl⟩
  | cons first others ih =>
    obtain ⟨_, _, _, _, -, read, rfl⟩ := cons_of_operationsOf h
    obtain ⟨operation, member, follows⟩ := ih read
    exact ⟨operation, List.mem_cons_of_mem _ member, follows⟩

theorem operationsOf_of_ofEntries {contract : Contract}
    (h : (ofEntries stripped entries).run.run log = (.ok contract, last)) :
    (operationsOf (.new stripped) entries).run.run log = (.ok contract.operations, last) := by
  obtain ⟨operations, _, read, ended⟩ := run_bind_eq_ok h
  cases ended
  exact read

theorem names_of_operationsOf
    (h : (operationsOf namer entries).run.run log = (.ok operations, last)) :
    operations.map Operation.name = entries.map Entry.name := by
  induction entries generalizing namer log operations with
  | nil =>
    cases h
    rfl
  | cons entry rest ih =>
    obtain ⟨_, _, _, _, -, read, rfl⟩ := cons_of_operationsOf h
    rw [List.map_cons, List.map_cons, ih read]
    rfl

theorem names_of_ofEntries {contract : Contract}
    (h : (ofEntries stripped entries).run.run log = (.ok contract, last)) :
    contract.operations.map Operation.name = entries.map Entry.name :=
  names_of_operationsOf (operationsOf_of_ofEntries h)

theorem merges_of_ofEntries {contract : Contract}
    (h : (ofEntries stripped entries).run.run log = (.ok contract, last)) :
    ∀ operation ∈ contract.operations, ∃ entry ∈ entries, operation.Merges entry := by
  intro operation member
  obtain ⟨before, entry, rest, rfl, merges, -⟩ :=
    follows_of_mem_operationsOf (operationsOf_of_ofEntries h) operation member
  exact ⟨entry, List.mem_append_right _ List.mem_cons_self, merges⟩

end Contract

theorem Operation.Merges.name {operation : Operation} {entry : Entry}
    (h : operation.Merges entry) : operation.name = entry.name := by
  obtain ⟨parameters, names, before, after, merged, rfl⟩ := h
  rfl

theorem Operation.Merges.reconcile {operation : Operation} {entry : Entry}
    (h : operation.Merges entry) (distinct : entry.DistinctFiles) :
    operation.parameters.Reconcile entry := by
  obtain ⟨parameters, names, before, after, merged, rfl⟩ := h
  exact (Parameters.compatible_of_ofEntry distinct merged).2.reconcile

/-- The parameters of an operation are what one of its statements declares. -/
theorem Contract.exists_base_of_ofEntries {statements : List Statement} {contract : Contract}
    (h : (ofEntries stripped (Entry.ofStatements statements)).run.run log = (.ok contract, last)) :
    ∀ operation ∈ contract.operations, ∃ statement ∈ statements,
      operation.parameters.canonical.map (fun parameter =>
        (parameter.name, parameter.declaration)) = statement.declarations.pairs := by
  intro operation member
  obtain ⟨entry, entered, merges⟩ := merges_of_ofEntries h operation member
  obtain ⟨distinct, variants⟩ := Entry.gathers_of_mem_ofStatements entered
  exact ⟨entry.base, variants entry.base List.mem_cons_self,
    (merges.reconcile distinct).declarations⟩

theorem Contract.method_of_ofEntries {contract : Contract}
    (h : (ofEntries stripped entries).run.run log = (.ok contract, last)) {operation : Operation}
    (member : operation ∈ contract.operations) :
    Naming.isMethodName operation.method.toList = true := by
  have generated := List.mem_map_of_mem (f := Operation.generated) member
  rw [generated_of_ofEntries h] at generated
  exact Namer.isMethodName_of_mem_handOut generated

end QueryContract
