import QueryContract.Proofs.Contract.Operations

/-!
Entries whose variants are compatible with the base. These are the ones that merge, and what they
leave in the log can be told variant by variant, without looking at the parameters so far.
-/

namespace QueryContract

variable {entry : Entry} {entries : List Entry} {base other : Statement} {seen : List Statement}

def Entry.Compatible (entry : Entry) : Prop := ∀ other ∈ entry.others, entry.base.Compatible other

/-- What is noticed of a later variant that is compatible with the base. -/
def Statement.drifts (operation : String) (base other : Statement) : List Notice :=
  base.declarations.pairs.flatMap (Parameters.comparisonNotices operation base other) ++
    other.declarations.pairs.flatMap (Parameters.additionalNotices operation base other)

def Entry.drifts (entry : Entry) : List Notice :=
  entry.others.flatMap (Statement.drifts entry.name entry.base)

namespace Parameters

variable {parameters next : Parameters} {operation : String}

theorem variantNotices_of_taken (covers : Covers base seen parameters)
    (taken : withVariant operation base parameters other = .ok next) :
    variantNotices operation base parameters other = base.drifts operation other := by
  cases compares : parameters.canonical.mapM (compared operation base other) with
  | error conflict => rw [withVariant, compares] at taken; cases taken
  | ok canonical =>
    rw [variantNotices, compares, Recording.noticesOfAll_of_ok (ok_of_mapM_eq_ok compares),
      covers.canonical, List.flatMap_map]
    rfl

theorem noticesOfRun_of_compatible (operation : String) {others : List Statement}
    (covers : Covers base seen parameters)
    (compatible : ∀ other ∈ others, base.Compatible other)
    (distinct : (base :: (seen ++ others)).Pairwise fun earlier later =>
      earlier.file.same later.file = false) :
    ∃ last, others.foldlM (withVariant operation base) parameters = .ok last ∧
      Recording.noticesOfRun (withVariant operation base) (variantNotices operation base) parameters
        others = others.flatMap (base.drifts operation) := by
  -- the notices only depend on the base because every variant leaves parameters that cover it
  induction others generalizing seen parameters with
  | nil => exact ⟨parameters, rfl, rfl⟩
  | cons other rest ih =>
    obtain ⟨head, tail⟩ := List.forall_mem_cons.mp compatible
    obtain ⟨next, taken, covers'⟩ :=
      withVariant_of_compatible operation covers head (fresh_of_distinct distinct)
    rw [List.append_cons] at distinct
    obtain ⟨last, ended, notices⟩ := ih covers' tail distinct
    refine ⟨last, ?_, ?_⟩
    · rw [List.foldlM_cons, taken]
      exact ended
    · rw [Recording.noticesOfRun, taken, variantNotices_of_taken covers taken, Recording.following,
        notices, List.flatMap_cons]

theorem ofEntry_leaves_of_compatible (distinct : entry.DistinctFiles)
    (compatible : entry.Compatible) :
    ∃ parameters, (ofEntry entry).Leaves (.ok parameters) entry.drifts := by
  obtain ⟨last, ended, notices⟩ :=
    noticesOfRun_of_compatible entry.name (covers_ofBase entry.base) compatible distinct
  have leaves := ofEntry_leaves entry
  rw [ended, notices] at leaves
  exact ⟨last, leaves⟩

end Parameters

namespace Contract

variable {stripped : String} {log last : NoticeLog}

/-- The notices of compatible entries: of each one what drifts, then its names that were held. -/
def notices (namer : Namer) : List Entry → List Notice
  | [] => []
  | entry :: rest =>
    entry.drifts ++ namer.collisions entry.name ++ notices (namer.after entry.name) rest

theorem operationsOf_leaves_of_compatible (namer : Namer)
    (distinct : ∀ entry ∈ entries, entry.DistinctFiles)
    (compatible : ∀ entry ∈ entries, entry.Compatible) :
    ∃ operations, (operationsOf namer entries).Leaves (.ok operations) (notices namer entries) := by
  induction entries generalizing namer with
  | nil => exact ⟨[], Recording.leaves_pure []⟩
  | cons entry rest ih =>
    obtain ⟨files, others⟩ := List.forall_mem_cons.mp distinct
    obtain ⟨head, tail⟩ := List.forall_mem_cons.mp compatible
    obtain ⟨parameters, merged⟩ := Parameters.ofEntry_leaves_of_compatible files head
    obtain ⟨operations, read⟩ := ih (namer.after entry.name) others tail
    have added : (addEntry namer entry).Leaves
        (.ok (.ofEntry entry parameters (namer.namesOf entry.name), namer.after entry.name))
        (entry.drifts ++ namer.collisions entry.name) :=
      merged.bind_ok ((namer.nameStatement_leaves entry.name).bind_pure fun named =>
        (Operation.ofEntry entry parameters named.1, named.2))
    exact ⟨_, added.bind_ok (read.bind_pure fun operations => _ :: operations)⟩

theorem ofEntries_leaves_of_compatible (stripped : String)
    (distinct : ∀ entry ∈ entries, entry.DistinctFiles)
    (compatible : ∀ entry ∈ entries, entry.Compatible) :
    ∃ contract, (ofEntries stripped entries).Leaves (.ok contract)
      (notices (.new stripped) entries) := by
  obtain ⟨operations, read⟩ :=
    operationsOf_leaves_of_compatible (.new stripped) distinct compatible
  exact ⟨_, read.bind_pure Contract.mk⟩

theorem compatible_of_operationsOf {namer : Namer} {operations : List Operation}
    (distinct : ∀ entry ∈ entries, entry.DistinctFiles)
    (h : (operationsOf namer entries).run.run log = (.ok operations, last)) :
    ∀ entry ∈ entries, entry.Compatible := by
  induction entries generalizing namer log operations with
  | nil => exact fun _ member => nomatch member
  | cons entry rest ih =>
    obtain ⟨files, others⟩ := List.forall_mem_cons.mp distinct
    obtain ⟨parameters, middle, later, further, merged, read, rfl⟩ := cons_of_operationsOf h
    have head := (Parameters.compatible_of_ofEntry files merged).1
    exact List.forall_mem_cons.mpr ⟨head, ih others read⟩

theorem compatible_of_ofEntries {contract : Contract}
    (distinct : ∀ entry ∈ entries, entry.DistinctFiles)
    (h : (ofEntries stripped entries).run.run log = (.ok contract, last)) :
    ∀ entry ∈ entries, entry.Compatible :=
  compatible_of_operationsOf distinct (operationsOf_of_ofEntries h)

end Contract

end QueryContract
