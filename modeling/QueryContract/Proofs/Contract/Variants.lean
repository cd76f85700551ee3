import QueryContract.Proofs.Contract.Operations

/-!
What an operation tells about the variants of its statement: the kind of the base, the place of each
variant, and the longest one of their docs.
-/

namespace QueryContract

namespace Description

section Longest

variable {variants : List Statement} {variant other : Statement}

/-- No doc is longer, counted in bytes, and those of the variants before it are shorter. -/
def IsFirstLongest (variants : List Statement) (variant : Statement) : Prop :=
  ∃ before after, variants = before ++ variant :: after ∧
    (∀ earlier ∈ before, earlier.doc.utf8ByteSize < variant.doc.utf8ByteSize) ∧
      ∀ later ∈ after, later.doc.utf8ByteSize ≤ variant.doc.utf8ByteSize

theorem IsFirstLongest.mem (h : IsFirstLongest variants variant) : variant ∈ variants := by
  obtain ⟨before, after, rfl, -⟩ := h
  simp

theorem IsFirstLongest.le (h : IsFirstLongest variants variant) :
    ∀ other ∈ variants, other.doc.utf8ByteSize ≤ variant.doc.utf8ByteSize := by
  obtain ⟨before, after, rfl, shorter, longest⟩ := h
  intro other member
  simp only [List.mem_append, List.mem_cons] at member
  rcases member with earlier | rfl | later
  · exact Nat.le_of_lt (shorter other earlier)
  · exact Nat.le_refl _
  · exact longest other later

theorem IsFirstLongest.append (h : IsFirstLongest variants variant)
    (longest : other.doc.utf8ByteSize ≤ variant.doc.utf8ByteSize) :
    IsFirstLongest (variants ++ [other]) variant := by
  obtain ⟨before, after, rfl, shorter, others⟩ := h
  refine ⟨before, after ++ [other], by simp, shorter, ?_⟩
  exact List.forall_mem_append.mpr ⟨others, List.forall_mem_singleton.mpr longest⟩

/-- A variant that stands before another one is shorter than it, so it is none of the longest. -/
theorem eq_of_front {front gap after after' : List Statement}
    (split : variant :: after = gap ++ other :: after')
    (shorter : ∀ earlier ∈ front ++ gap, earlier.doc.utf8ByteSize < other.doc.utf8ByteSize)
    (longest : other.doc.utf8ByteSize ≤ variant.doc.utf8ByteSize) : variant = other := by
  cases gap with
  | nil => exact (List.cons.inj split).1
  | cons first rest =>
    have same : variant = first := (List.cons.inj split).1
    have less := shorter first (by simp)
    rw [← same] at less
    omega

theorem IsFirstLongest.unique (h : IsFirstLongest variants variant)
    (h' : IsFirstLongest variants other) : variant = other := by
  have longest := h.le other h'.mem
  have longest' := h'.le variant h.mem
  obtain ⟨before, after, split, shorter, -⟩ := h
  obtain ⟨before', after', split', shorter', -⟩ := h'
  rcases List.append_eq_append_iff.mp (split.symm.trans split') with
    ⟨gap, rfl, back⟩ | ⟨gap, rfl, back⟩
  · exact eq_of_front back shorter' longest
  · exact (eq_of_front back shorter longest').symm

end Longest

section Choice

variable {seen variants : List Statement} {best : Option Description}

/-- What variants come to: no description if all docs are empty, else the first one of the longest. -/
inductive Chosen : List Statement → Option Description → Prop
  | undocumented {variants : List Statement} (empty : ∀ variant ∈ variants, variant.doc = "") :
    Chosen variants none
  | documented {variants : List Statement} {variant : Statement} (nonempty : variant.doc ≠ "")
    (first : IsFirstLongest variants variant) : Chosen variants (some ⟨variant.file, variant.doc⟩)

theorem Chosen.le_length (h : Chosen variants best) :
    ∀ variant ∈ variants, variant.doc.utf8ByteSize ≤ length best := by
  cases h with
  | undocumented empty =>
    intro variant member
    simp [empty variant member]
  | documented _ first => exact first.le

theorem Chosen.longer (h : Chosen seen best) (statement : Statement) :
    Chosen (seen ++ [statement]) (longer best statement) := by
  rw [Description.longer]
  split
  · rename_i less
    have nonempty : statement.doc ≠ "" := by
      intro empty
      simp [empty] at less
    have shorter : ∀ earlier ∈ seen, earlier.doc.utf8ByteSize < statement.doc.utf8ByteSize :=
      fun earlier member => Nat.lt_of_le_of_lt (h.le_length earlier member) less
    exact .documented nonempty ⟨seen, [], rfl, shorter, nofun⟩
  · rename_i kept
    -- the earlier one stays even if both are of the same length
    cases h with
    | undocumented empty =>
      have none : statement.doc = "" := by simpa [length] using kept
      exact .undocumented (List.forall_mem_append.mpr ⟨empty, List.forall_mem_singleton.mpr none⟩)
    | documented nonempty first => exact .documented nonempty (first.append (Nat.le_of_not_lt kept))

theorem Chosen.foldl (h : Chosen seen best) (further : List Statement) :
    Chosen (seen ++ further) (further.foldl Description.longer best) := by
  induction further generalizing seen best with
  | nil => rwa [List.append_nil]
  | cons statement rest ih =>
    rw [List.append_cons]
    exact ih (h.longer statement)

theorem Chosen.eq_none_iff (h : Chosen variants best) :
    best = none ↔ ∀ variant ∈ variants, variant.doc = "" := by
  cases h with
  | undocumented empty => simpa using empty
  | documented nonempty first =>
    apply iff_of_false nofun
    intro empty
    exact nonempty (empty _ first.mem)

theorem Chosen.eq_some_iff (h : Chosen variants best) (description : Description) :
    best = some description ↔ ∃ variant, IsFirstLongest variants variant ∧ variant.doc ≠ "" ∧
      description = ⟨variant.file, variant.doc⟩ := by
  cases h with
  | undocumented empty =>
    apply iff_of_false nofun
    intro longest
    obtain ⟨variant, first, nonempty, -⟩ := longest
    exact nonempty (empty variant first.mem)
  | documented nonempty first =>
    constructor
    · intro same
      exact ⟨_, first, nonempty, (Option.some.inj same).symm⟩
    · intro longest
      obtain ⟨other, first', -, rfl⟩ := longest
      rw [first.unique first']

theorem chosen_ofEntry (entry : Entry) : Chosen entry.variants (ofEntry entry) :=
  (Chosen.undocumented nofun : Chosen [] none).foldl entry.variants

end Choice

end Description

/-- What is told of the variants of an entry, whatever else they say. -/
structure Operation.Tells (operation : Operation) (entry : Entry) : Prop where
  name : operation.name = entry.name
  kind : operation.kind = QueryKind.ofQuery entry.base.query
  origins : operation.origins = entry.variants.map fun variant => ⟨variant.file, variant.line⟩
  undocumented : operation.doc = none ↔ ∀ variant ∈ entry.variants, variant.doc = ""
  documented : ∀ description, operation.doc = some description ↔ ∃ variant,
    Description.IsFirstLongest entry.variants variant ∧ variant.doc ≠ "" ∧
      description = ⟨variant.file, variant.doc⟩

theorem Operation.Merges.tells {operation : Operation} {entry : Entry} (h : operation.Merges entry) :
    operation.Tells entry := by
  obtain ⟨parameters, names, before, after, merged, rfl⟩ := h
  have chosen := Description.chosen_ofEntry entry
  exact ⟨rfl, rfl, rfl, chosen.eq_none_iff, chosen.eq_some_iff⟩

variable {statements : List Statement} {stripped : String} {log last : NoticeLog}
  {contract : Contract}

/-- An operation tells the kind of the variant that came first, the place of each variant and the
    longest doc. A variant is the last statement of its file and stands where the first one came. -/
theorem operations_tell_of_variants
    (merged : (Contract.ofEntries stripped (Entry.ofStatements statements)).run.run log =
      (.ok contract, last)) :
    ∀ operation ∈ contract.operations, ∃ entry ∈ Entry.ofStatements statements,
      entry.Refines statements ∧ operation.Tells entry := by
  intro operation member
  obtain ⟨entry, entered, merges⟩ := Contract.merges_of_ofEntries merged operation member
  exact ⟨entry, entered, Entry.refines_of_mem_ofStatements entered, merges.tells⟩

def retoldStatements : List Statement :=
  [⟨"q", "SELECT 1", .empty, "The first", ⟨"b.sql"⟩, 1⟩, ⟨"q", "SELECT 2", .empty, "é", ⟨"a.sql"⟩, 2⟩,
    ⟨"q", "INSERT 3", .empty, "no", ⟨"b.sql"⟩, 3⟩, ⟨"q", "SELECT 4", .empty, "", ⟨"c.sql"⟩, 4⟩]

/-- Two bytes are as long as two letters, and what came later in the same file replaced the query. -/
theorem told_of_retoldStatements : ∃ contract last,
    (Contract.ofEntries "" (Entry.ofStatements retoldStatements)).run.run .empty =
        (.ok contract, last) ∧
      ∀ operation ∈ contract.operations, operation.kind = .insert ∧
        operation.origins = [⟨⟨"b.sql"⟩, 3⟩, ⟨⟨"a.sql"⟩, 2⟩, ⟨⟨"c.sql"⟩, 4⟩] ∧
          operation.doc = some ⟨⟨"b.sql"⟩, "no"⟩ := by
  have sorted : Entry.ofStatements retoldStatements =
      (Collector.empty.addAll retoldStatements).entries :=
    List.mergeSort_of_pairwise (by decide +kernel)
  have merges : ((Contract.ofEntries "" (Entry.ofStatements retoldStatements)).run.run
      .empty).1.isOk = true := by
    rw [sorted]
    decide +kernel
  obtain ⟨contract, last, merged⟩ := Recording.exists_of_isOk merges
  refine ⟨contract, last, merged, ?_⟩
  intro operation member
  obtain ⟨entry, entered, -, told⟩ := operations_tell_of_variants merged operation member
  rw [sorted] at entered
  have single : (Collector.empty.addAll retoldStatements).entries = [⟨"q",
      ⟨"q", "INSERT 3", .empty, "no", ⟨"b.sql"⟩, 3⟩,
      [⟨"q", "SELECT 2", .empty, "é", ⟨"a.sql"⟩, 2⟩,
        ⟨"q", "SELECT 4", .empty, "", ⟨"c.sql"⟩, 4⟩]⟩] := by
    decide +kernel
  rw [single, List.mem_singleton] at entered
  subst entered
  refine ⟨?_, told.origins, ?_⟩
  · rw [told.kind]
    decide +kernel
  · rw [told.documented]
    refine ⟨_, ⟨[], _, rfl, nofun, ?_⟩, ?_, rfl⟩
    · decide +kernel
    · decide

end QueryContract
