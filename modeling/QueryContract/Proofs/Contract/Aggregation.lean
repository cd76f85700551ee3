import QueryContract.Proofs.Contract.Collecting
import QueryContract.Proofs.Sorting
import QueryContract.Proofs.Text.NaturalOrder

/-!
The entries of a collector that was given statements one by one, file by file or both: they depend
on nothing but the sequence of the statements, and stand in strict natural order of their names.
-/

namespace QueryContract

/-- What a collector is given at once. -/
inductive Delivery where
  | one (statement : Statement)
  | file (statements : List Statement)

def Delivery.statements : Delivery → List Statement
  | one statement => [statement]
  | file statements => statements

namespace Collector

def receive (collector : Collector) : Delivery → Collector
  | .one statement => collector.add statement
  | .file statements => collector.addAll statements

theorem receive_eq (collector : Collector) (delivery : Delivery) :
    collector.receive delivery = collector.addAll delivery.statements := by
  cases delivery <;> rfl

theorem addAll_append (collector : Collector) (earlier later : List Statement) :
    collector.addAll (earlier ++ later) = (collector.addAll earlier).addAll later :=
  List.foldl_append

theorem foldl_receive (collector : Collector) (deliveries : List Delivery) :
    deliveries.foldl receive collector =
      collector.addAll (deliveries.flatMap Delivery.statements) := by
  induction deliveries generalizing collector with
  | nil => rfl
  | cons delivery rest ih =>
    rw [List.foldl_cons, ih, receive_eq, List.flatMap_cons, addAll_append]

theorem mem_sorted_iff {collector : Collector} {entry : Entry} :
    entry ∈ collector.sorted ↔ entry ∈ collector.entries := List.mem_mergeSort

theorem pairwise_sorted {collector : Collector}
    (distinct : (collector.entries.map Entry.name).Nodup) :
    collector.sorted.Pairwise fun earlier later =>
      naturalOrder earlier.name later.name = .lt :=
  pairwise_mergeSort_of_distinct distinct

end Collector

theorem aggregation_refines (deliveries : List Delivery) :
    let statements := deliveries.flatMap Delivery.statements
    let entries := (deliveries.foldl Collector.receive .empty).sorted
    entries = Entry.ofStatements statements ∧
      entries.Pairwise (fun earlier later => naturalOrder earlier.name later.name = .lt) ∧
        (entries.map Entry.name).Nodup ∧
          (∀ name, name ∈ entries.map Entry.name ↔ name ∈ statements.map Statement.name) ∧
            ∀ entry ∈ entries,
              entry.variants ≠ [] ∧ entry.DistinctFiles ∧ entry.Refines statements := by
  intro statements entries
  have collected : deliveries.foldl Collector.receive .empty =
      Collector.empty.addAll statements := Collector.foldl_receive _ deliveries
  have holds := Collector.holds_empty.addAll statements
  rw [← collected] at holds
  have reordered : (entries.map Entry.name).Perm
      ((deliveries.foldl Collector.receive .empty).entries.map Entry.name) :=
    (List.mergeSort_perm _ _).map Entry.name
  refine ⟨congrArg Collector.sorted collected, Collector.pairwise_sorted holds.distinct,
    reordered.nodup_iff.mpr holds.distinct, fun name => ?_, fun entry member => ?_⟩
  · rw [reordered.mem_iff]
    exact holds.names name
  · have refines := holds.refines entry (Collector.mem_sorted_iff.mp member)
    exact ⟨List.cons_ne_nil _ _, refines.distinctFiles, refines⟩

end QueryContract
