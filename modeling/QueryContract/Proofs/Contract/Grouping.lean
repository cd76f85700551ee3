import QueryContract.Contract.Operation
import QueryContract.Artifact.Text
import QueryContract.Proofs.Contract.Aggregation

/-!
The entry of one name is made of the statements of that name alone. With the strict order of the
names this fixes the list of entries, so it does not matter how the statements of different names
are mixed.
-/

namespace QueryContract

variable {statements : List Statement} {statement : Statement} {entries : List Entry}

namespace Entry

/-- Takes a statement into the entry of its name, if there is one already. -/
def gather (held : Option Entry) (statement : Statement) : Option Entry :=
  some (held.elim (.single statement) (·.add statement))

/-- The entry that statements of one name come to. -/
def gathered (statements : List Statement) : Option Entry := statements.foldl gather none

end Entry

namespace Statement

def isNamed (name : String) (statement : Statement) : Bool := statement.name = name

end Statement

namespace Collector

def entryNamed? (name : String) (entries : List Entry) : Option Entry :=
  entries.find? fun entry => entry.name = name

theorem entryNamed?_addTo (statement : Statement) (entries : List Entry) (name : String) :
    entryNamed? name (addTo statement entries) =
      if statement.isNamed name then Entry.gather (entryNamed? name entries) statement
      else entryNamed? name entries := by
  induction entries with
  | nil =>
    rw [addTo, entryNamed?, List.find?_singleton]
    rfl
  | cons first rest ih =>
    rw [addTo]
    by_cases taken : first.name = statement.name
    · rw [if_pos taken, entryNamed?, entryNamed?, List.find?_cons, List.find?_cons, Entry.name_add,
        taken, Statement.isNamed]
      by_cases named : statement.name = name
      · simp [named, Entry.gather]
      · simp [named]
    · rw [if_neg taken]
      by_cases here : first.name = name
      · have other : statement.isNamed name = false :=
          decide_eq_false fun named => taken (here.trans named.symm)
        simp [entryNamed?, here, other]
      · simpa [entryNamed?, here] using ih

theorem entryNamed?_addAll (collector : Collector) (statements : List Statement) (name : String) :
    entryNamed? name (collector.addAll statements).entries =
      (statements.filter (Statement.isNamed name)).foldl Entry.gather
        (entryNamed? name collector.entries) := by
  induction statements generalizing collector with
  | nil => rfl
  | cons statement rest ih =>
    rw [addAll, List.foldl_cons, ← addAll, ih, add, entryNamed?_addTo, List.filter_cons]
    split <;> rfl

theorem entryNamed?_eq_some_iff (distinct : (entries.map Entry.name).Nodup) {entry : Entry} :
    entryNamed? entry.name entries = some entry ↔ entry ∈ entries := by
  induction entries with
  | nil => simp [entryNamed?]
  | cons first rest ih =>
    obtain ⟨alone, others⟩ := List.nodup_cons.mp distinct
    rw [entryNamed?, List.find?_cons, List.mem_cons]
    by_cases here : first.name = entry.name
    · have absent : entry ∉ rest := fun member =>
        alone (List.mem_map.mpr ⟨entry, member, here.symm⟩)
      simp [here, absent, eq_comm]
    · have other : entry ≠ first := fun same => here (congrArg Entry.name same.symm)
      simpa [entryNamed?, here, other] using ih others

end Collector

theorem Entry.mem_ofStatements_iff {entry : Entry} : entry ∈ ofStatements statements ↔
    gathered (statements.filter (Statement.isNamed entry.name)) = some entry := by
  rw [ofStatements, Collector.mem_sorted_iff,
    ← Collector.entryNamed?_eq_some_iff (Collector.holds_empty.addAll statements).distinct,
    Collector.entryNamed?_addAll]
  rfl

theorem Entry.pairwise_ofStatements (statements : List Statement) :
    (ofStatements statements).Pairwise fun earlier later =>
      naturalOrder earlier.name later.name = .lt :=
  Collector.pairwise_sorted (Collector.holds_empty.addAll statements).distinct

theorem Entry.mem_names_ofStatements {statements : List Statement} {name : String} :
    name ∈ (ofStatements statements).map Entry.name ↔ name ∈ statements.map Statement.name := by
  have reordered : ((ofStatements statements).map Entry.name).Perm
      ((Collector.empty.addAll statements).entries.map Entry.name) :=
    (List.mergeSort_perm _ _).map Entry.name
  rw [reordered.mem_iff]
  exact (Collector.holds_empty.addAll statements).names name

theorem Entry.ofStatements_congr {first second : List Statement}
    (same : ∀ name,
      first.filter (Statement.isNamed name) = second.filter (Statement.isNamed name)) :
    ofStatements first = ofStatements second := by
  refine eq_of_strictlyOrdered (pairwise_ofStatements first) (pairwise_ofStatements second) ?_
  intro entry
  rw [mem_ofStatements_iff, mem_ofStatements_iff, same]

/-- Statements of different names may be mixed in any way: neither the contract nor its notices nor
    the text of the file tell. -/
theorem mixing_of_names_is_irrelevant {first second : List Statement}
    (same : ∀ name, first.filter (·.name = name) = second.filter (·.name = name))
    (stripped : String) (log : NoticeLog) (sources : List Path) (name : ArtifactName)
    (style : Style) :
    let merged (statements : List Statement) :=
      (Contract.ofEntries stripped (Entry.ofStatements statements)).run.run log
    let rendered (statements : List Statement) :=
      (merged statements).1.map fun contract => Artifact.text contract sources name style
    Entry.ofStatements first = Entry.ofStatements second ∧
      merged first = merged second ∧ rendered first = rendered second := by
  intro merged rendered
  have entries : Entry.ofStatements first = Entry.ofStatements second :=
    Entry.ofStatements_congr same
  have contracts : merged first = merged second := by
    simp only [merged, entries]
  refine ⟨entries, contracts, ?_⟩
  simp only [rendered, contracts]

def mixedStatements : List Statement :=
  [⟨"q10", "SELECT 1", .empty, "", ⟨"a.sql"⟩, 1⟩, ⟨"q2", "SELECT 2", .empty, "", ⟨"a.sql"⟩, 4⟩,
    ⟨"q10", "SELECT 3", .empty, "", ⟨"b.sql"⟩, 1⟩]

def groupedStatements : List Statement :=
  [⟨"q2", "SELECT 2", .empty, "", ⟨"a.sql"⟩, 4⟩, ⟨"q10", "SELECT 1", .empty, "", ⟨"a.sql"⟩, 1⟩,
    ⟨"q10", "SELECT 3", .empty, "", ⟨"b.sql"⟩, 1⟩]

theorem mixing_of_mixedStatements : mixedStatements ≠ groupedStatements ∧
    (∀ name, mixedStatements.filter (·.name = name) = groupedStatements.filter (·.name = name)) ∧
      Entry.ofStatements mixedStatements = Entry.ofStatements groupedStatements := by
  have same (name : String) :
      mixedStatements.filter (·.name = name) = groupedStatements.filter (·.name = name) := by
    by_cases ten : "q10" = name
    · subst ten
      rfl
    · by_cases two : "q2" = name <;> simp [mixedStatements, groupedStatements, ten, two]
  exact ⟨by decide, same,
    (mixing_of_names_is_irrelevant same "" .empty [] ⟨[], "Queries"⟩
      ⟨"", .lf, .tab, .interface⟩).1⟩

end QueryContract
