import QueryContract.Proofs.Contract.Grouping
import QueryContract.Proofs.Contract.Compatibility

/-!
What further files do to a contract. An entry that is known already gets more variants after the
ones that it has, so what its base fixes stays and only what is told about it grows. Its names may
change only when a new statement comes before it.
-/

namespace QueryContract

variable {earlier later : List Statement}

namespace Entry

/-- The same base, and possibly more variants after the known ones. -/
structure Grows (entry larger : Entry) : Prop where
  name : larger.name = entry.name
  base : larger.base = entry.base
  others : entry.others <+: larger.others

theorem Grows.variants {entry larger : Entry} (h : entry.Grows larger) :
    entry.variants <+: larger.variants := by
  rw [Entry.variants, Entry.variants, h.base]
  exact List.prefix_cons_inj _ |>.mpr h.others

theorem replaceOrAdd_append {kept more : List Statement} {statement : Statement}
    (apart : ∀ variant ∈ kept, variant.file.same statement.file = false) :
    replaceOrAdd statement (kept ++ more) = kept ++ replaceOrAdd statement more := by
  induction kept with
  | nil => rfl
  | cons first rest ih =>
    obtain ⟨head, tail⟩ := List.forall_mem_cons.mp apart
    rw [List.cons_append, replaceOrAdd, head, if_neg Bool.false_ne_true, ih tail, List.cons_append]

theorem grows_add {entry larger : Entry} (h : entry.Grows larger) {statement : Statement}
    (apart : ∀ variant ∈ entry.variants, variant.file.same statement.file = false) :
    entry.Grows (larger.add statement) := by
  obtain ⟨more, split⟩ := h.others
  obtain ⟨head, tail⟩ := List.forall_mem_cons.mp apart
  rw [add, h.base, head, if_neg Bool.false_ne_true, ← split, replaceOrAdd_append tail]
  exact ⟨h.name, rfl, List.prefix_append _ _⟩

theorem grows_foldl_gather {entry larger : Entry} (h : entry.Grows larger)
    (apart : ∀ statement ∈ later, ∀ variant ∈ entry.variants,
      variant.file.same statement.file = false) :
    ∃ last, later.foldl gather (some larger) = some last ∧ entry.Grows last := by
  induction later generalizing larger with
  | nil => exact ⟨larger, rfl, h⟩
  | cons statement rest ih =>
    obtain ⟨head, tail⟩ := List.forall_mem_cons.mp apart
    exact ih (grows_add h head) tail

theorem exists_grows {entry : Entry}
    (apart : ∀ known ∈ earlier, ∀ statement ∈ later, known.file.same statement.file = false)
    (member : entry ∈ ofStatements earlier) :
    ∃ larger ∈ ofStatements (earlier ++ later), entry.Grows larger := by
  have held := mem_ofStatements_iff.mp member
  have variants := (gathers_of_mem_ofStatements member).2
  have itself : entry.Grows entry := ⟨rfl, rfl, List.prefix_rfl⟩
  have apart' : ∀ statement ∈ later.filter (Statement.isNamed entry.name),
      ∀ variant ∈ entry.variants, variant.file.same statement.file = false :=
    fun statement inLater variant inEntry =>
      apart variant (variants variant inEntry) statement (List.mem_filter.mp inLater).1
  obtain ⟨larger, gathers, grows⟩ := grows_foldl_gather itself apart'
  refine ⟨larger, mem_ofStatements_iff.mpr ?_, grows⟩
  rw [grows.name, List.filter_append, gathered, List.foldl_append]
  rw [gathered] at held
  rw [held]
  exact gathers

end Entry

namespace Description

theorem foldl_longer (variants : List Statement) (best : Option Description) :
    variants.foldl longer best = best ∨ length best < length (variants.foldl longer best) := by
  induction variants generalizing best with
  | nil => exact .inl rfl
  | cons variant rest ih =>
    rw [List.foldl_cons]
    by_cases less : length best < variant.doc.utf8ByteSize
    · have taken : longer best variant = some ⟨variant.file, variant.doc⟩ := by
        rw [longer, if_pos less]
      have longer : length best < length (longer best variant) := by
        rw [taken]
        exact less
      rcases ih (Description.longer best variant) with same | greater
      · rw [same]
        exact .inr longer
      · exact .inr (Nat.lt_trans longer greater)
    · have kept : longer best variant = best := by rw [longer, if_neg less]
      rw [kept]
      exact ih best

theorem ofEntry_of_grows {entry larger : Entry} (h : entry.Grows larger) :
    ofEntry larger = ofEntry entry ∨ length (ofEntry entry) < length (ofEntry larger) := by
  obtain ⟨more, split⟩ := h.variants
  rw [ofEntry, ofEntry, ← split, List.foldl_append]
  exact foldl_longer more _

end Description

/-- The entries before an entry are those with a lesser name. -/
theorem Entry.mem_names_before {before rest : List Entry} {entry : Entry}
    (ordered : (before ++ entry :: rest).Pairwise fun earlier later =>
      naturalOrder earlier.name later.name = .lt) {name : String} :
    name ∈ before.map Entry.name ↔
      name ∈ (before ++ entry :: rest).map Entry.name ∧ naturalOrder name entry.name = .lt := by
  obtain ⟨-, tail, apart⟩ := List.pairwise_append.mp ordered
  constructor
  · intro member
    obtain ⟨found, inBefore, rfl⟩ := List.mem_map.mp member
    exact ⟨List.mem_map_of_mem (List.mem_append_left _ inBefore),
      apart found inBefore entry List.mem_cons_self⟩
  · rintro ⟨member, less⟩
    rw [List.map_append, List.mem_append, List.map_cons, List.mem_cons] at member
    rcases member with inBefore | rfl | inRest
    · exact inBefore
    · exact absurd less (Std.OrientedCmp.not_lt_of_lt less)
    · obtain ⟨found, isLater, rfl⟩ := List.mem_map.mp inRest
      have greater := (List.pairwise_cons.mp tail).1 found isLater
      exact absurd less (Std.OrientedCmp.not_lt_of_lt greater)

/-- What callers of an operation rely on stays, and what is told about it may grow. -/
structure Operation.Extends (larger operation : Operation) : Prop where
  name : larger.name = operation.name
  parameters : (larger.parameters.canonical.map fun parameter =>
      (parameter.name, parameter.declaration)) =
    operation.parameters.canonical.map fun parameter => (parameter.name, parameter.declaration)
  kind : larger.kind = operation.kind
  origins : operation.origins <+: larger.origins
  doc : larger.doc = operation.doc ∨
    Description.length operation.doc < Description.length larger.doc

theorem Operation.extends_of_grows {operation larger : Operation} {entry grown : Entry}
    (merges : operation.Merges entry) (merges' : larger.Merges grown)
    (distinct : entry.DistinctFiles) (distinct' : grown.DistinctFiles) (grows : entry.Grows grown) :
    larger.Extends operation := by
  have declarations := (merges.reconcile distinct).declarations
  have declarations' := (merges'.reconcile distinct').declarations
  obtain ⟨parameters, names, _, _, -, rfl⟩ := merges
  obtain ⟨parameters', names', _, _, -, rfl⟩ := merges'
  constructor
  · exact grows.name
  · rw [declarations, declarations', grows.base]
  · exact congrArg (fun base : Statement => QueryKind.ofQuery base.query) grows.base
  · exact grows.variants.map fun variant => (⟨variant.file, variant.line⟩ : Origin)
  · exact Description.ofEntry_of_grows grows

theorem Entry.Grows.compatible {entry larger : Entry} (h : entry.Grows larger)
    (compatible : larger.Compatible) : entry.Compatible := by
  intro other member
  rw [← h.base]
  exact compatible other (h.others.subset member)

theorem Entry.compatible_of_further_files
    (apart : ∀ known ∈ earlier, ∀ statement ∈ later, known.file.same statement.file = false)
    (compatible : ∀ entry ∈ ofStatements (earlier ++ later), entry.Compatible) :
    ∀ entry ∈ ofStatements earlier, entry.Compatible := by
  intro entry member
  obtain ⟨larger, inLarger, grows⟩ := exists_grows apart member
  exact grows.compatible (compatible larger inLarger)

/-- If every new name is greater, an entry comes after the same names as without them. -/
theorem Entry.names_before_eq {before rest before' rest' : List Entry} {entry larger : Entry}
    (split : ofStatements earlier = before ++ entry :: rest)
    (split' : ofStatements (earlier ++ later) = before' ++ larger :: rest')
    (same : larger.name = entry.name)
    (greater : ∀ statement ∈ later, statement.name ∉ earlier.map Statement.name →
      naturalOrder entry.name statement.name = .lt) :
    before'.map Entry.name = before.map Entry.name := by
  have ordered := pairwise_ofStatements earlier
  have ordered' := pairwise_ofStatements (earlier ++ later)
  rw [split] at ordered
  rw [split'] at ordered'
  have strict : (before.map Entry.name).Pairwise fun first second =>
      naturalOrder first second = .lt := List.pairwise_map.mpr (List.pairwise_append.mp ordered).1
  have strict' : (before'.map Entry.name).Pairwise fun first second =>
      naturalOrder first second = .lt := List.pairwise_map.mpr (List.pairwise_append.mp ordered').1
  -- strictly ordered lists of names are equal once they have the same members
  refine eq_of_strictlyOrdered strict' strict fun name => ?_
  rw [mem_names_before ordered', mem_names_before ordered, ← split, ← split',
    mem_names_ofStatements, mem_names_ofStatements, List.map_append, List.mem_append, same]
  constructor
  · rintro ⟨known | new, less⟩
    · exact ⟨known, less⟩
    · refine ⟨?_, less⟩
      by_contra unknown
      obtain ⟨statement, member, rfl⟩ := List.mem_map.mp new
      exact Std.OrientedCmp.not_lt_of_lt less (greater statement member unknown)
  · rintro ⟨known, less⟩
    exact ⟨.inl known, less⟩

namespace Contract

variable {stripped : String} {log log' last last' : NoticeLog} {smaller larger : Contract}

theorem ok_of_further_files
    (apart : ∀ known ∈ earlier, ∀ statement ∈ later, known.file.same statement.file = false)
    (h : (ofEntries stripped (Entry.ofStatements (earlier ++ later))).run.run log' =
      (.ok larger, last')) (log : NoticeLog) :
    ∃ smaller last,
      (ofEntries stripped (Entry.ofStatements earlier)).run.run log = (.ok smaller, last) := by
  have compatible' := compatible_of_ofEntries (fun _ => Entry.distinctFiles_of_mem_ofStatements) h
  have compatible := Entry.compatible_of_further_files apart compatible'
  obtain ⟨smaller, merged⟩ := ofEntries_leaves_of_compatible stripped
    (fun _ => Entry.distinctFiles_of_mem_ofStatements) compatible
  exact ⟨smaller, _, merged log⟩

theorem extends_of_further_files
    (apart : ∀ known ∈ earlier, ∀ statement ∈ later, known.file.same statement.file = false)
    (h : (ofEntries stripped (Entry.ofStatements earlier)).run.run log = (.ok smaller, last))
    (h' : (ofEntries stripped (Entry.ofStatements (earlier ++ later))).run.run log' =
      (.ok larger, last')) {operation : Operation} (member : operation ∈ smaller.operations) :
    ∃ counterpart ∈ larger.operations, counterpart.Extends operation ∧
      ((∀ statement ∈ later, statement.name ∉ earlier.map Statement.name →
          naturalOrder operation.name statement.name = .lt) →
        counterpart.generated = operation.generated) := by
  have read' := operationsOf_of_ofEntries h'
  obtain ⟨before, entry, rest, split, merges, names⟩ :=
    follows_of_mem_operationsOf (operationsOf_of_ofEntries h) operation member
  have inEarlier : entry ∈ Entry.ofStatements earlier := by simp [split]
  obtain ⟨grown, inBoth, grows⟩ := Entry.exists_grows apart inEarlier
  obtain ⟨before', rest', split'⟩ := List.append_of_mem inBoth
  rw [split'] at read'
  obtain ⟨counterpart, member', merges', names'⟩ := exists_follows_of_operationsOf read'
  have files := Entry.distinctFiles_of_mem_ofStatements inEarlier
  have files' := Entry.distinctFiles_of_mem_ofStatements inBoth
  refine ⟨counterpart, member', ?_, fun greater => ?_⟩
  · exact Operation.extends_of_grows merges merges' files files' grows
  · rw [merges.name] at greater
    rw [names, names', grows.name, Entry.names_before_eq split split' grows.name greater]

end Contract

/-- Statements from further files leave alone what merges without them. -/
theorem further_files_extend {earlier later : List Statement}
    (apart : ∀ known ∈ earlier, ∀ statement ∈ later, known.file.same statement.file = false)
    (stripped : String) (log log' : NoticeLog) :
    let merge (statements : List Statement) :=
      (Contract.ofEntries stripped (Entry.ofStatements statements)).run.run
    (∀ conflict last, merge earlier log = (.error conflict, last) →
        ∃ conflict' last', merge (earlier ++ later) log' = (.error conflict', last')) ∧
      ∀ larger last', merge (earlier ++ later) log' = (.ok larger, last') →
        ∃ smaller last, merge earlier log = (.ok smaller, last) ∧
          ∀ operation ∈ smaller.operations, ∃ counterpart ∈ larger.operations,
            counterpart.Extends operation ∧
              ((∀ statement ∈ later, statement.name ∉ earlier.map Statement.name →
                  naturalOrder operation.name statement.name = .lt) →
                counterpart.generated = operation.generated) := by
  intro merge
  refine ⟨fun conflict last fails => ?_, fun larger last' merged' => ?_⟩
  · cases ended : merge (earlier ++ later) log' with
    | mk result last' =>
      cases result with
      | error conflict' => exact ⟨conflict', last', rfl⟩
      | ok larger =>
        obtain ⟨smaller, last, merged⟩ := Contract.ok_of_further_files apart ended log
        cases fails.symm.trans merged
  · obtain ⟨smaller, last, merged⟩ := Contract.ok_of_further_files apart merged' log
    exact ⟨smaller, last, merged, fun operation member =>
      Contract.extends_of_further_files apart merged merged' member⟩

def knownStatements : List Statement :=
  [⟨"q2", "SELECT 2", .empty, "Two", ⟨"a.sql"⟩, 1⟩]

def furtherStatements : List Statement :=
  [⟨"q10", "SELECT 10", .empty, "", ⟨"b.sql"⟩, 1⟩,
    ⟨"q2", "SELECT 3", .empty, "Two rows", ⟨"b.sql"⟩, 4⟩]

theorem further_files_of_knownStatements :
    (∀ known ∈ knownStatements, ∀ statement ∈ furtherStatements,
        known.file.same statement.file = false) ∧
      ∃ smaller larger last last',
        (Contract.ofEntries "" (Entry.ofStatements knownStatements)).run.run .empty =
            (.ok smaller, last) ∧
          (Contract.ofEntries ""
              (Entry.ofStatements (knownStatements ++ furtherStatements))).run.run .empty =
                (.ok larger, last') ∧
            ∀ operation ∈ smaller.operations, ∃ counterpart ∈ larger.operations,
              counterpart.Extends operation ∧ counterpart.generated = operation.generated := by
  have apart : ∀ known ∈ knownStatements, ∀ statement ∈ furtherStatements,
      known.file.same statement.file = false := by decide +kernel
  have sorted : Entry.ofStatements (knownStatements ++ furtherStatements) =
      (Collector.empty.addAll (knownStatements ++ furtherStatements)).entries :=
    List.mergeSort_of_pairwise (by decide +kernel)
  have merges : ((Contract.ofEntries "" (Entry.ofStatements
      (knownStatements ++ furtherStatements))).run.run .empty).1.isOk = true := by
    rw [sorted]
    decide +kernel
  obtain ⟨larger, last', merged'⟩ := Recording.exists_of_isOk merges
  obtain ⟨smaller, last, merged, extended⟩ :=
    (further_files_extend apart "" .empty .empty).2 larger last' merged'
  refine ⟨apart, smaller, larger, last, last', merged, merged', fun operation member => ?_⟩
  obtain ⟨counterpart, member', extends', kept⟩ := extended operation member
  refine ⟨counterpart, member', extends', kept fun statement inLater _ => ?_⟩
  have named := List.mem_map_of_mem (f := Operation.name) member
  rw [Contract.names_of_ofEntries merged, Entry.mem_names_ofStatements] at named
  have known : operation.name = "q2" := List.mem_singleton.mp named
  rw [known]
  revert statement
  decide +kernel

end QueryContract
