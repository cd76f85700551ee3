import Mathlib.Algebra.GroupWithZero.Nat
import Mathlib.Data.List.Basic
import QueryContract.Proofs.Contract.Growth

/-!
Where the operations of a contract come from. Statements with one name are from different files as
long as no file names two statements alike and no file comes twice. Then nothing takes the place of
anything else, and each statement is one origin of the operation of its name.
-/

namespace QueryContract

variable {statements : List Statement} {documents : List Document} {entry : Entry}

/-- The two statements have different names or come from different files. -/
def Statement.Apart (earlier later : Statement) : Prop :=
  later.isFor earlier.name earlier.file = false

/-- All statements come from the file of the document, each with a name of its own. -/
structure Document.OfOneFile (document : Document) : Prop where
  file : ∀ statement ∈ document.statements, statement.file = document.path
  names : (document.statements.map Statement.name).Nodup

def Statement.origin (statement : Statement) : Origin := ⟨statement.file, statement.line⟩

/-- The origins that a document gives to the operation of a name. -/
def Document.originsOf (name : String) (document : Document) : List Origin :=
  (document.statements.filter (·.name = name)).map fun statement => ⟨document.path, statement.line⟩

/-- Nothing of the documents is lost in the contract. -/
structure Contract.Keeps (contract : Contract) (documents : List Document) : Prop where
  /-- There is one operation for a statement, and the statement is its one origin in the file. -/
  statements : ∀ document ∈ documents, ∀ statement ∈ document.statements,
    ∃ operation, contract.operations.filter (·.name = statement.name) = [operation] ∧
      operation.origins.filter (·.file.same document.path) = [⟨document.path, statement.line⟩]
  /-- An operation has no other origins, and they stand in the order of the documents. -/
  origins : ∀ operation ∈ contract.operations,
    operation.origins = documents.flatMap (Document.originsOf operation.name)
  count : (contract.operations.map (·.origins.length)).sum =
    (documents.map (·.statements.length)).sum
  /-- A statement that comes in is never from the file of a variant that is there already. -/
  replaced : ∀ before statement after,
    documents.flatMap Document.statements = before ++ statement :: after →
      ∀ entry ∈ (Collector.empty.addAll before).entries, entry.name = statement.name →
        ∀ variant ∈ entry.variants, variant.file.same statement.file = false

theorem apart_of_documents (each : ∀ document ∈ documents, document.OfOneFile)
    (paths : documents.Pairwise fun earlier later => earlier.path.same later.path = false) :
    (documents.flatMap Document.statements).Pairwise Statement.Apart := by
  refine List.pairwise_flatMap.mpr ⟨fun document member => ?_, ?_⟩
  · refine (List.pairwise_map.mp (each document member).names).imp fun {earlier later} differ => ?_
    rw [Statement.Apart, Statement.isFor, decide_eq_false (Ne.symm differ), Bool.false_and]
  · refine paths.imp_of_mem fun {first second} inFirst inSecond differ => ?_
    intro earlier declared later declaredLater
    rw [Statement.Apart, Statement.isFor, (each first inFirst).file earlier declared,
      (each second inSecond).file later declaredLater, Path.same_comm, differ, Bool.and_false]

namespace Entry

theorem variants_foldl_gather
    (apart : (entry.variants ++ statements).Pairwise fun earlier later =>
      earlier.file.same later.file = false) :
    ∃ last, statements.foldl gather (some entry) = some last ∧
      last.variants = entry.variants ++ statements := by
  induction statements generalizing entry with
  | nil => exact ⟨entry, rfl, (List.append_nil _).symm⟩
  | cons statement rest ih =>
    have new : ∀ variant ∈ entry.variants, variant.file.same statement.file = false :=
      fun variant member => (List.pairwise_append.mp apart).2.2 variant member statement
        List.mem_cons_self
    have added : (entry.add statement).variants = entry.variants ++ [statement] := by
      have last : replaceOrAdd statement (entry.variants ++ []) =
          entry.variants ++ replaceOrAdd statement [] := replaceOrAdd_append new
      rw [List.append_nil] at last
      rw [variants_add, last]
      rfl
    rw [List.append_cons, ← added] at apart ⊢
    exact ih apart

/-- Statements of one name from different files are the variants of their entry. -/
theorem variants_of_gathered (apart : statements.Pairwise fun earlier later =>
    earlier.file.same later.file = false) (h : gathered statements = some entry) :
    entry.variants = statements := by
  cases statements with
  | nil => cases h
  | cons first rest =>
    have opened : ((single first).variants ++ rest).Pairwise fun earlier later =>
        earlier.file.same later.file = false := apart
    obtain ⟨last, gathers, variants⟩ := variants_foldl_gather opened
    have same : some last = some entry := gathers.symm.trans h
    cases same
    exact variants

theorem variants_of_mem_ofStatements (apart : statements.Pairwise Statement.Apart)
    (member : entry ∈ ofStatements statements) :
    entry.variants = statements.filter (Statement.isNamed entry.name) := by
  refine variants_of_gathered ?_ (mem_ofStatements_iff.mp member)
  refine (apart.filter _).imp_of_mem fun {earlier later} inFirst inSecond differ => ?_
  have first : earlier.name = entry.name := of_decide_eq_true (List.mem_filter.mp inFirst).2
  have second : later.name = entry.name := of_decide_eq_true (List.mem_filter.mp inSecond).2
  rw [Statement.Apart, Statement.isFor, first, second, decide_eq_true rfl, Bool.true_and,
    Path.same_comm] at differ
  exact differ

end Entry

theorem filter_eq_singleton {α β : Type} [DecidableEq β] {key : α → β} {items : List α}
    (distinct : (items.map key).Nodup) {item : α} (member : item ∈ items) :
    items.filter (fun other => key other = key item) = [item] := by
  induction items with
  | nil => cases member
  | cons first rest ih =>
    obtain ⟨alone, others⟩ := List.nodup_cons.mp distinct
    rcases List.mem_cons.mp member with rfl | member
    · have none : rest.filter (fun other => key other = key item) = [] := by
        refine List.filter_eq_nil_iff.mpr fun other inRest same => alone ?_
        exact of_decide_eq_true same ▸ List.mem_map_of_mem inRest
      rw [List.filter_cons, decide_eq_true rfl, if_pos rfl, none]
    · have differs : key first ≠ key item := fun same =>
        alone (same ▸ List.mem_map_of_mem member)
      rw [List.filter_cons, decide_eq_false differs, if_neg Bool.false_ne_true, ih others member]

/-- Items counted key by key are all items, if every key is counted once. -/
theorem sum_length_filter {names : List String} (distinct : names.Nodup)
    (named : ∀ statement ∈ statements, statement.name ∈ names) :
    (names.map fun name => (statements.filter (Statement.isNamed name)).length).sum =
      statements.length := by
  induction names generalizing statements with
  | nil =>
    have empty : statements = [] := List.eq_nil_iff_forall_not_mem.mpr fun statement member =>
      nomatch named statement member
    rw [empty]
    rfl
  | cons name rest ih =>
    obtain ⟨alone, others⟩ := List.nodup_cons.mp distinct
    let further := statements.filter fun statement => !statement.isNamed name
    have counted : (rest.map fun other => (further.filter (Statement.isNamed other)).length).sum =
        further.length := by
      refine ih others fun statement member => ?_
      obtain ⟨found, differs⟩ := List.mem_filter.mp member
      refine (List.mem_cons.mp (named statement found)).resolve_left fun same => ?_
      simp [Statement.isNamed, same] at differs
    have same : ∀ other ∈ rest,
        further.filter (Statement.isNamed other) = statements.filter (Statement.isNamed other) := by
      intro other member
      rw [List.filter_filter]
      refine List.filter_congr fun statement _ => ?_
      by_cases named : statement.name = other
      · have differs : statement.name ≠ name := fun same => alone (same ▸ named ▸ member)
        simp [Statement.isNamed, named, named ▸ differs]
      · simp [Statement.isNamed, named]
    have split := List.length_eq_length_filter_add (l := statements) (Statement.isNamed name)
    have lengths : (rest.map fun other => (statements.filter (Statement.isNamed other)).length) =
        rest.map fun other => (further.filter (Statement.isNamed other)).length :=
      List.map_congr_left fun other member => by rw [same other member]
    rw [List.map_cons, List.sum_cons, lengths, counted, split]

theorem Entry.nodup_names_ofStatements (statements : List Statement) :
    ((ofStatements statements).map Entry.name).Nodup :=
  ((List.mergeSort_perm _ _).map Entry.name).nodup_iff.mpr
    (Collector.holds_empty.addAll statements).distinct

theorem Document.map_origin_filter (each : ∀ document ∈ documents, document.OfOneFile)
    (name : String) :
    ((documents.flatMap Document.statements).filter (Statement.isNamed name)).map
      Statement.origin = documents.flatMap (originsOf name) := by
  rw [List.filter_flatMap, List.map_flatMap]
  apply List.flatMap_congr
  intro document inDocuments
  apply List.map_congr_left
  intro statement declared
  rw [Statement.origin, (each document inDocuments).file statement (List.mem_filter.mp declared).1]

theorem Document.filter_originsOf (name : String) (document : Document) (file : Path) :
    (document.originsOf name).filter (·.file.same file) =
      if document.path.same file then document.originsOf name else [] := by
  unfold originsOf
  rw [List.filter_map]
  cases same : document.path.same file <;> simp [Function.comp_def, same]

theorem Document.filter_flatMap_originsOf {document : Document} (member : document ∈ documents)
    (paths : documents.Pairwise fun earlier later => earlier.path.same later.path = false)
    (name : String) :
    (documents.flatMap (originsOf name)).filter (·.file.same document.path) =
      document.originsOf name := by
  induction documents with
  | nil => cases member
  | cons first rest ih =>
    obtain ⟨apart, others⟩ := List.pairwise_cons.mp paths
    rw [List.flatMap_cons, List.filter_append, filter_originsOf]
    rcases List.mem_cons.mp member with rfl | member
    · have none : (rest.flatMap (originsOf name)).filter (·.file.same document.path) = [] := by
        rw [List.filter_flatMap, List.flatMap_eq_nil_iff]
        intro later inRest
        rw [filter_originsOf, Path.same_comm, apart later inRest, if_neg Bool.false_ne_true]
      rw [Path.same_self, if_pos rfl, none, List.append_nil]
    · rw [apart document member, if_neg Bool.false_ne_true, List.nil_append, ih member others]

namespace Contract

variable {stripped : String} {log last : NoticeLog} {contract : Contract}

theorem origins_of_ofEntries (apart : statements.Pairwise Statement.Apart)
    (merged : (ofEntries stripped (Entry.ofStatements statements)).run.run log =
      (.ok contract, last)) {operation : Operation} (member : operation ∈ contract.operations) :
    operation.origins =
      (statements.filter (Statement.isNamed operation.name)).map Statement.origin := by
  obtain ⟨entry, listed, merges⟩ := merges_of_ofEntries merged operation member
  rw [merges.name, ← Entry.variants_of_mem_ofStatements apart listed]
  obtain ⟨parameters, names, before, after, -, rfl⟩ := merges
  rfl

/-- The statements of documents from different files are all kept. -/
theorem keeps_of_ofEntries (each : ∀ document ∈ documents, document.OfOneFile)
    (paths : documents.Pairwise fun earlier later => earlier.path.same later.path = false)
    (merged : (ofEntries stripped
      (Entry.ofStatements (documents.flatMap Document.statements))).run.run log =
        (.ok contract, last)) : contract.Keeps documents := by
  have apart := apart_of_documents each paths
  have gathered (operation : Operation) (member : operation ∈ contract.operations) :=
    origins_of_ofEntries apart merged member
  have origins : ∀ operation ∈ contract.operations,
      operation.origins = documents.flatMap (Document.originsOf operation.name) :=
    fun operation member =>
      (gathered operation member).trans (Document.map_origin_filter each operation.name)
  have names := names_of_ofEntries merged
  have distinct : (contract.operations.map Operation.name).Nodup :=
    names ▸ Entry.nodup_names_ofStatements _
  have listed : ∀ statement ∈ documents.flatMap Document.statements,
      statement.name ∈ contract.operations.map Operation.name := by
    intro statement member
    rw [names, Entry.mem_names_ofStatements]
    exact List.mem_map_of_mem member
  constructor
  · intro document inDocuments statement declared
    have found := listed statement (List.mem_flatMap.mpr ⟨document, inDocuments, declared⟩)
    obtain ⟨operation, member, named⟩ := List.mem_map.mp found
    refine ⟨operation, named ▸ filter_eq_singleton distinct member, ?_⟩
    rw [origins operation member, Document.filter_flatMap_originsOf inDocuments paths,
      Document.originsOf, named, filter_eq_singleton (each document inDocuments).names declared]
    rfl
  · exact origins
  · have counted := sum_length_filter distinct listed
    have lengths : contract.operations.map (·.origins.length) =
        (contract.operations.map Operation.name).map fun name =>
          ((documents.flatMap Document.statements).filter (Statement.isNamed name)).length := by
      rw [List.map_map]
      apply List.map_congr_left
      intro operation member
      rw [gathered operation member, List.length_map]
      rfl
    rw [lengths, counted, List.length_flatMap]
  · intro before statement after split entry member named variant inEntry
    rw [split, List.pairwise_append] at apart
    have refines := (Collector.holds_empty.addAll before).refines entry member
    have differs := apart.2.2 variant (refines.mem_of_mem_variants inEntry) statement
      List.mem_cons_self
    rw [Statement.Apart, Statement.isFor, refines.named variant inEntry, named, decide_eq_true rfl,
      Bool.true_and, Path.same_comm] at differs
    exact differs

end Contract

end QueryContract
