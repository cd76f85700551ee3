import QueryContract.Proofs.Contract.Reconciliation

/-!
Entries as they are collected from statements. There is one for each name; it holds the last
statement of each file under that name, in the order in which the files first came with it.
-/

namespace QueryContract

variable {statements seen : List Statement} {statement variant : Statement} {entry : Entry}

def Statement.isFor (name : String) (file : Path) (statement : Statement) : Bool :=
  statement.name = name && statement.file.same file

/-- The place of the first statement of a name and a file. -/
def Statement.firstPlace (statements : List Statement) (name : String) (file : Path) : Nat :=
  statements.findIdx (Statement.isFor name file)

/-- The variants of an entry: for each file of its name the last statement, in the order of the
    first statements. -/
structure Entry.Refines (entry : Entry) (statements : List Statement) : Prop where
  named : ∀ variant ∈ entry.variants, variant.name = entry.name
  covers : ∀ statement ∈ statements, statement.name = entry.name →
    ∃ variant ∈ entry.variants, variant.file.same statement.file = true
  ordered : entry.variants.Pairwise fun earlier later =>
    Statement.firstPlace statements entry.name earlier.file <
      Statement.firstPlace statements entry.name later.file
  latest : ∀ variant ∈ entry.variants, ∃ before after, statements = before ++ variant :: after ∧
    ∀ later ∈ after, later.isFor entry.name variant.file = false

theorem Path.same_eq_true_iff (left right : Path) :
    left.same right = true ↔ left.components = right.components := by
  rw [same, decide_eq_true_iff]

theorem Path.same_congr {file other : Path} (h : file.same other = true) (third : Path) :
    file.same third = other.same third := by
  rw [same_eq_true_iff] at h
  rw [same, same, h]

namespace Statement

theorem isFor_eq_true_iff (name : String) (file : Path) (statement : Statement) :
    statement.isFor name file = true ↔ statement.name = name ∧ statement.file.same file = true := by
  rw [isFor, Bool.and_eq_true, decide_eq_true_iff]

theorem isFor_congr (name : String) {file other : Path} (h : file.same other = true) :
    isFor name file = isFor name other := by
  funext statement
  rw [isFor, isFor, Path.same_comm, Path.same_congr h, Path.same_comm]

theorem isFor_self (statement : Statement) :
    statement.isFor statement.name statement.file = true :=
  (isFor_eq_true_iff _ _ _).mpr ⟨rfl, Path.same_self _⟩

theorem firstPlace_congr (statements : List Statement) (name : String) {file other : Path}
    (h : file.same other = true) : firstPlace statements name file =
      firstPlace statements name other := by
  rw [firstPlace, firstPlace, isFor_congr name h]

/-- Later statements do not move the first one. -/
theorem firstPlace_append {name : String} {file : Path}
    (h : ∃ statement ∈ statements, statement.isFor name file = true) (later : List Statement) :
    firstPlace (statements ++ later) name file = firstPlace statements name file ∧
      firstPlace statements name file < statements.length := by
  have bound := List.findIdx_lt_length.mpr h
  rw [firstPlace, firstPlace, List.findIdx_append, if_pos bound]
  exact ⟨rfl, bound⟩

theorem firstPlace_append_of_absent {name : String} {file : Path}
    (h : ∀ statement ∈ statements, statement.isFor name file = false)
    (hs : statement.isFor name file = true) :
    firstPlace (statements ++ [statement]) name file = statements.length := by
  have absent : statements.findIdx (isFor name file) = statements.length :=
    List.findIdx_eq_length.mpr h
  have here : [statement].findIdx (isFor name file) = 0 := by
    rw [List.findIdx_cons, hs]
    rfl
  rw [firstPlace, List.findIdx_append, absent, if_neg (Nat.lt_irrefl _), here, Nat.zero_add]

end Statement

namespace Entry

/-- What is told by the file alone stays as it is, or one more comes last. -/
theorem map_replaceOrAdd {β : Type} {told : Statement → β}
    (byFile : ∀ left right : Statement, left.file.same right.file = true → told left = told right)
    (statement : Statement) (variants : List Statement) :
    (replaceOrAdd statement variants).map told =
      if variants.any (·.file.same statement.file) then variants.map told
      else variants.map told ++ [told statement] := by
  induction variants with
  | nil => rfl
  | cons first rest ih =>
    rw [replaceOrAdd, List.any_cons]
    cases same : first.file.same statement.file with
    | true =>
      rw [if_pos rfl, Bool.true_or, if_pos rfl, List.map_cons, List.map_cons,
        byFile first statement same]
    | false =>
      rw [if_neg Bool.false_ne_true, Bool.false_or, List.map_cons, ih]
      split <;> rfl

theorem mem_replaceOrAdd_iff {variants : List Statement}
    (distinct : variants.Pairwise fun earlier later => earlier.file.same later.file = false) :
    variant ∈ replaceOrAdd statement variants ↔
      variant = statement ∨ variant ∈ variants ∧ variant.file.same statement.file = false := by
  induction variants with
  | nil => simp [replaceOrAdd]
  | cons first rest ih =>
    obtain ⟨apart, others⟩ := List.pairwise_cons.mp distinct
    rw [replaceOrAdd]
    cases same : first.file.same statement.file with
    | true =>
      have kept : ∀ other ∈ rest, other.file.same statement.file = false := by
        intro other member
        rw [Path.same_comm, ← Path.same_congr same]
        exact apart other member
      rw [if_pos rfl, List.mem_cons]
      constructor
      · rintro (found | found)
        · exact .inl found
        · exact .inr ⟨List.mem_cons_of_mem _ found, kept variant found⟩
      · rintro (found | ⟨found, other⟩)
        · exact .inl found
        · rcases List.mem_cons.mp found with rfl | found
          · rw [same] at other
            cases other
          · exact .inr found
    | false =>
      rw [if_neg Bool.false_ne_true, List.mem_cons, ih others, List.mem_cons]
      constructor
      · rintro (rfl | found | ⟨found, other⟩)
        · exact .inr ⟨.inl rfl, same⟩
        · exact .inl found
        · exact .inr ⟨.inr found, other⟩
      · rintro (found | ⟨found | found, other⟩)
        · exact .inr (.inl found)
        · exact .inl found
        · exact .inr (.inr ⟨found, other⟩)

theorem name_add (entry : Entry) (statement : Statement) :
    (entry.add statement).name = entry.name := by
  rw [add]
  split <;> rfl

namespace Refines

theorem mem_of_mem_variants (h : entry.Refines seen) (member : variant ∈ entry.variants) :
    variant ∈ seen := by
  obtain ⟨before, after, rfl, -⟩ := h.latest variant member
  exact List.mem_append_right _ List.mem_cons_self

theorem exists_isFor (h : entry.Refines seen) (member : variant ∈ entry.variants) :
    ∃ statement ∈ seen, statement.isFor entry.name variant.file = true := by
  refine ⟨variant, h.mem_of_mem_variants member, ?_⟩
  rw [← h.named variant member]
  exact variant.isFor_self

/-- A variant keeps its place whatever comes later. -/
theorem firstPlace_append (h : entry.Refines seen) (member : variant ∈ entry.variants)
    (later : List Statement) :
    Statement.firstPlace (seen ++ later) entry.name variant.file =
        Statement.firstPlace seen entry.name variant.file ∧
      Statement.firstPlace seen entry.name variant.file < seen.length :=
  Statement.firstPlace_append (h.exists_isFor member) later

theorem ordered_append (h : entry.Refines seen) (later : List Statement) :
    entry.variants.Pairwise fun first second =>
      Statement.firstPlace (seen ++ later) entry.name first.file <
        Statement.firstPlace (seen ++ later) entry.name second.file := by
  refine h.ordered.imp_of_mem fun {first second} inFirst inSecond less => ?_
  rw [(h.firstPlace_append inFirst later).1, (h.firstPlace_append inSecond later).1]
  exact less

theorem latest_append (h : entry.Refines seen) (member : variant ∈ entry.variants)
    (apart : statement.isFor entry.name variant.file = false) :
    ∃ before after, seen ++ [statement] = before ++ variant :: after ∧
      ∀ later ∈ after, later.isFor entry.name variant.file = false := by
  obtain ⟨before, after, rfl, last⟩ := h.latest variant member
  exact ⟨before, after ++ [statement], by simp,
    List.forall_mem_append.mpr ⟨last, List.forall_mem_singleton.mpr apart⟩⟩

/-- Another name changes nothing. -/
theorem append_of_ne (h : entry.Refines seen) (other : statement.name ≠ entry.name) :
    entry.Refines (seen ++ [statement]) where
  named := h.named
  covers := List.forall_mem_append.mpr
    ⟨h.covers, List.forall_mem_singleton.mpr fun named => absurd named other⟩
  ordered := h.ordered_append [statement]
  latest variant member := h.latest_append member <| by
    rw [Statement.isFor, decide_eq_false other, Bool.false_and]

theorem single (absent : ∀ earlier ∈ seen, earlier.name ≠ statement.name) :
    (Entry.single statement).Refines (seen ++ [statement]) where
  named := List.forall_mem_singleton.mpr rfl
  covers := List.forall_mem_append.mpr
    ⟨fun found member named => absurd named (absent found member),
      List.forall_mem_singleton.mpr fun _ =>
        ⟨statement, List.mem_cons_self, Path.same_self _⟩⟩
  ordered := List.pairwise_singleton _ _
  latest := List.forall_mem_singleton.mpr ⟨seen, [], rfl, nofun⟩

/-- A file has one place only, so no two variants are from one file. -/
theorem distinctFiles (h : entry.Refines seen) : entry.DistinctFiles := by
  refine h.ordered.imp fun {earlier later} less => Bool.eq_false_iff.mpr fun same => ?_
  rw [Statement.firstPlace_congr seen entry.name same] at less
  exact Nat.lt_irrefl _ less

theorem absent (h : entry.Refines seen)
    (apart : ¬entry.variants.any (·.file.same statement.file) = true) :
    ∀ earlier ∈ seen, earlier.isFor entry.name statement.file = false := by
  intro earlier member
  refine Bool.eq_false_iff.mpr fun found => apart ?_
  obtain ⟨named, same⟩ := (Statement.isFor_eq_true_iff _ _ _).mp found
  obtain ⟨variant, kept, file⟩ := h.covers earlier member named
  rw [← Path.same_congr file] at same
  exact List.any_eq_true.mpr ⟨variant, kept, same⟩

/-- A statement of the name takes the place of the one from its file, or comes last. -/
theorem add (h : entry.Refines seen) (named : statement.name = entry.name) :
    (entry.add statement).Refines (seen ++ [statement]) := by
  have member (variant : Statement) : variant ∈ (entry.add statement).variants ↔
      variant = statement ∨
        variant ∈ entry.variants ∧ variant.file.same statement.file = false := by
    rw [variants_add]
    exact mem_replaceOrAdd_iff h.distinctFiles
  constructor
  · intro variant found
    rw [name_add]
    rcases (member variant).mp found with rfl | ⟨found, -⟩
    · exact named
    · exact h.named variant found
  · rw [name_add]
    refine List.forall_mem_append.mpr ⟨fun found inSeen same => ?_,
      List.forall_mem_singleton.mpr fun _ => ⟨statement, (member _).mpr (.inl rfl),
        Path.same_self _⟩⟩
    obtain ⟨variant, kept, file⟩ := h.covers found inSeen same
    cases here : variant.file.same statement.file with
    | true =>
      refine ⟨statement, (member _).mpr (.inl rfl), ?_⟩
      rw [← Path.same_congr here]
      exact file
    | false => exact ⟨variant, (member _).mpr (.inr ⟨kept, here⟩), file⟩
  · have byFile (left right : Statement) (same : left.file.same right.file = true) :=
      Statement.firstPlace_congr (seen ++ [statement]) entry.name same
    rw [variants_add, name_add, ← List.pairwise_map (R := (· < ·)),
      map_replaceOrAdd byFile]
    have earlier := List.pairwise_map.mpr (h.ordered_append [statement])
    split
    · exact earlier
    · rename_i apart
      have here : statement.isFor entry.name statement.file = true := by
        rw [← named]
        exact statement.isFor_self
      have last := Statement.firstPlace_append_of_absent (h.absent apart) here
      refine List.pairwise_append.mpr ⟨earlier, List.pairwise_singleton _ _, ?_⟩
      intro place placed
      obtain ⟨variant, found, rfl⟩ := List.mem_map.mp placed
      refine List.forall_mem_singleton.mpr ?_
      obtain ⟨kept, bound⟩ := h.firstPlace_append found [statement]
      rw [kept, last]
      exact bound
  · intro variant found
    rw [name_add]
    rcases (member variant).mp found with rfl | ⟨found, apart⟩
    · exact ⟨seen, [], rfl, nofun⟩
    · refine h.latest_append found ?_
      rw [Statement.isFor, Path.same_comm, apart, Bool.and_false]

end Refines

end Entry

namespace Collector

variable {entries : List Entry} {collector : Collector}

/-- The collector has one entry for each name among the statements. -/
structure Holds (collector : Collector) (seen : List Statement) : Prop where
  distinct : (collector.entries.map Entry.name).Nodup
  names : ∀ name, name ∈ collector.entries.map Entry.name ↔ name ∈ seen.map Statement.name
  refines : ∀ entry ∈ collector.entries, entry.Refines seen

theorem names_addTo (statement : Statement) (entries : List Entry) :
    (addTo statement entries).map Entry.name =
      if statement.name ∈ entries.map Entry.name then entries.map Entry.name
      else entries.map Entry.name ++ [statement.name] := by
  induction entries with
  | nil => rfl
  | cons first rest ih =>
    rw [addTo]
    by_cases same : first.name = statement.name
    · rw [if_pos same, List.map_cons, List.map_cons, Entry.name_add, same,
        if_pos List.mem_cons_self]
    · rw [if_neg same, List.map_cons, List.map_cons, ih]
      simp only [List.mem_cons, Ne.symm same, false_or]
      split <;> rfl

theorem refines_addTo (refines : ∀ entry ∈ entries, entry.Refines seen)
    (distinct : (entries.map Entry.name).Nodup)
    (complete : statement.name ∈ seen.map Statement.name →
      statement.name ∈ entries.map Entry.name) :
    ∀ entry ∈ addTo statement entries, entry.Refines (seen ++ [statement]) := by
  induction entries with
  | nil =>
    refine List.forall_mem_singleton.mpr (.single fun earlier member same => ?_)
    exact nomatch complete (List.mem_map.mpr ⟨earlier, member, same⟩)
  | cons first rest ih =>
    obtain ⟨head, tail⟩ := List.forall_mem_cons.mp refines
    obtain ⟨alone, others⟩ := List.nodup_cons.mp distinct
    rw [addTo]
    by_cases same : first.name = statement.name
    · rw [if_pos same]
      refine List.forall_mem_cons.mpr ⟨head.add same.symm, fun entry member => ?_⟩
      refine (tail entry member).append_of_ne fun named => alone ?_
      exact List.mem_map.mpr ⟨entry, member, named.symm.trans same.symm⟩
    · rw [if_neg same]
      refine List.forall_mem_cons.mpr ⟨head.append_of_ne (Ne.symm same), ih tail others ?_⟩
      exact fun found => (List.mem_cons.mp (complete found)).resolve_left (Ne.symm same)

theorem holds_empty : empty.Holds [] :=
  ⟨List.nodup_nil, fun _ => Iff.rfl, nofun⟩

theorem Holds.add (h : collector.Holds seen) (statement : Statement) :
    (collector.add statement).Holds (seen ++ [statement]) := by
  have names := names_addTo statement collector.entries
  constructor
  · rw [Collector.add, names]
    split
    · exact h.distinct
    · rename_i fresh
      refine List.nodup_append.mpr ⟨h.distinct, List.pairwise_singleton _ _, ?_⟩
      exact fun name member => List.forall_mem_singleton.mpr fun same => fresh (same ▸ member)
  · intro name
    rw [Collector.add, names, List.map_append, List.mem_append, ← h.names]
    split
    · rename_i known
      constructor
      · exact .inl
      · rintro (found | found)
        · exact found
        · cases List.mem_singleton.mp found
          exact known
    · exact List.mem_append
  · exact refines_addTo h.refines h.distinct (h.names statement.name).mpr

theorem Holds.addAll (h : collector.Holds seen) (statements : List Statement) :
    (collector.addAll statements).Holds (seen ++ statements) := by
  induction statements generalizing collector seen with
  | nil => rwa [List.append_nil]
  | cons statement rest ih =>
    have later := ih (h.add statement)
    rwa [List.append_assoc] at later

/-- The entries hold variants among the statements, each from a file of its own. -/
def Gathers (statements : List Statement) (entry : Entry) : Prop :=
  entry.DistinctFiles ∧ ∀ variant ∈ entry.variants, variant ∈ statements

end Collector

theorem Entry.refines_of_mem_ofStatements (h : entry ∈ ofStatements statements) :
    entry.Refines statements :=
  (Collector.holds_empty.addAll statements).refines entry (List.mem_mergeSort.mp h)

theorem Entry.distinctFiles_of_mem_ofStatements (h : entry ∈ ofStatements statements) :
    entry.DistinctFiles := (refines_of_mem_ofStatements h).distinctFiles

theorem Entry.gathers_of_mem_ofStatements (h : entry ∈ ofStatements statements) :
    Collector.Gathers statements entry :=
  have refines := refines_of_mem_ofStatements h
  ⟨distinctFiles_of_mem_ofStatements h, fun _ member => refines.mem_of_mem_variants member⟩

end QueryContract
