import Mathlib.Data.List.Forall2
import QueryContract.Proofs.Contract.Compatibility

/-!
The order of the later variants of an entry. All of them are compared with the base alone, so none
changes what is made of another: in another order they come to the same parameters, the files that
tell whether one is optional stand in another order, and so do the notices.
-/

namespace QueryContract

variable {entry reordered : Entry} {base : Statement} {seen others : List Statement}

/-- The same base, and the same later variants in whatever order. -/
structure Entry.Reorders (entry reordered : Entry) : Prop where
  name : reordered.name = entry.name
  base : reordered.base = entry.base
  others : entry.others.Perm reordered.others

/-- One declaration, and the same word of each file in whatever order. -/
structure Parameter.SameInAnyOrder (left right : Parameter) : Prop where
  name : left.name = right.name
  declaration : left.declaration = right.declaration
  optionality : left.optionality.Perm right.optionality

/-- The same parameters in one order, with the same words of the files in whatever order. -/
structure Parameters.SameInAnyOrder (left right : Parameters) : Prop where
  canonical : List.Forall₂ Parameter.SameInAnyOrder left.canonical right.canonical
  names : left.additional.keys.Perm right.additional.keys
  additional : ∀ name ∈ left.additional.keys, ∃ known other,
    left.additional.get? name = some known ∧ right.additional.get? name = some other ∧
      known.Perm other

theorem Entry.DistinctFiles.of_reorders (distinct : entry.DistinctFiles)
    (h : entry.Reorders reordered) : reordered.DistinctFiles := by
  have variants : entry.variants.Perm reordered.variants := by
    rw [variants, variants, h.base]
    exact h.others.cons _
  refine (variants.pairwise_iff fun {left right} apart => ?_).mp distinct
  rw [Path.same_comm]
  exact apart

theorem Entry.Compatible.of_reorders (compatible : entry.Compatible)
    (h : entry.Reorders reordered) : reordered.Compatible := by
  intro other member
  rw [h.base]
  exact compatible other (h.others.mem_iff.mpr member)

theorem Entry.Reorders.symm (h : entry.Reorders reordered) : reordered.Reorders entry :=
  ⟨h.name.symm, h.base.symm, h.others.symm⟩

theorem Entry.Reorders.drifts (h : entry.Reorders reordered) :
    entry.drifts.Perm reordered.drifts := by
  rw [Entry.drifts, Entry.drifts, h.name, h.base]
  exact h.others.flatMap_right _

namespace Parameters

variable {parameters other : Parameters} {log last : NoticeLog}

theorem Covers.keys_perm (covers : Covers base seen parameters) (covers' : Covers base others other)
    (h : seen.Perm others) : parameters.additional.keys.Perm other.additional.keys := by
  refine (List.perm_ext_iff_of_nodup parameters.additional.distinct
    other.additional.distinct).mpr fun name => ?_
  change name ∈ parameters.additional.keys ↔ name ∈ other.additional.keys
  rw [covers.lacked, covers'.lacked, Statement.lackedNames, Statement.lackedNames,
    List.mem_eraseDups, List.mem_eraseDups]
  exact ((h.flatMap_right _).filter _).mem_iff

theorem Covers.sameInAnyOrder (covers : Covers base seen parameters)
    (covers' : Covers base others other) (h : seen.Perm others) :
    parameters.SameInAnyOrder other where
  canonical := by
    rw [covers.canonical, covers'.canonical, List.forall₂_map_left_iff,
      List.forall₂_map_right_iff, List.forall₂_same]
    exact fun pair _ => ⟨rfl, rfl, (h.cons base).filterMap _⟩
  names := covers.keys_perm covers' h
  additional name member :=
    ⟨_, _, covers.get?_of_mem_keys member,
      covers'.get?_of_mem_keys ((covers.keys_perm covers' h).mem_iff.mp member), h.filterMap _⟩

theorem exists_ok_iff_compatible (distinct : entry.DistinctFiles) (log : NoticeLog) :
    (∃ parameters last, (ofEntry entry).run.run log = (.ok parameters, last)) ↔
      entry.Compatible := by
  constructor
  · rintro ⟨parameters, last, merged⟩
    exact (compatible_of_ofEntry distinct merged).1
  · intro compatible
    obtain ⟨parameters, leaves⟩ := ofEntry_leaves_of_compatible distinct compatible
    exact ⟨parameters, _, leaves log⟩

theorem last_of_ofEntry (distinct : entry.DistinctFiles)
    (merged : (ofEntry entry).run.run log = (.ok parameters, last)) :
    last = log.extend entry.drifts := by
  have compatible := (compatible_of_ofEntry distinct merged).1
  obtain ⟨parameters', leaves⟩ := ofEntry_leaves_of_compatible distinct compatible
  exact congrArg Prod.snd (merged.symm.trans (leaves log))

end Parameters

/-- The later variants of an entry commute: whether it has parameters, what they are and which
    notices there are does not depend on their order. The entries that are collected from statements
    have each variant from another file. -/
theorem later_variants_commute (distinct : entry.DistinctFiles) (h : entry.Reorders reordered)
    (log earlier : NoticeLog) :
    ((∃ parameters last, (Parameters.ofEntry entry).run.run log = (.ok parameters, last)) ↔
        ∃ parameters last,
          (Parameters.ofEntry reordered).run.run earlier = (.ok parameters, last)) ∧
      ∀ parameters other last later,
        (Parameters.ofEntry entry).run.run log = (.ok parameters, last) →
        (Parameters.ofEntry reordered).run.run earlier = (.ok other, later) →
          parameters.SameInAnyOrder other ∧ ∃ notices reported, last = log.extend notices ∧
            later = earlier.extend reported ∧ notices.Perm reported := by
  have distinct' := distinct.of_reorders h
  constructor
  · rw [Parameters.exists_ok_iff_compatible distinct, Parameters.exists_ok_iff_compatible distinct']
    exact ⟨fun compatible => compatible.of_reorders h, fun compatible => compatible.of_reorders h.symm⟩
  · intro parameters other last later merged merged'
    have covers := (Parameters.compatible_of_ofEntry distinct merged).2
    have covers' := (Parameters.compatible_of_ofEntry distinct' merged').2
    rw [h.base] at covers'
    exact ⟨covers.sameInAnyOrder covers' h.others, _, _, Parameters.last_of_ofEntry distinct merged,
      Parameters.last_of_ofEntry distinct' merged', h.drifts⟩

/-- Of the two later variants one makes the parameter of the base optional and both declare another,
    so that each of their orders has its own words, its own names and its own notices. -/
def driftingEntry (swapped : Bool) : Entry :=
  let variant (file : String) (declarations : List (String × Declaration)) : Statement :=
    ⟨"list", "select 1", .ofList declarations, "", ⟨file⟩, 1⟩
  let optional :=
    variant "b.sql" [("id", ⟨.int, false, false, true, none⟩),
      ("tag", ⟨.string, false, false, false, none⟩)]
  let lacking :=
    variant "c.sql" [("page", ⟨.int, false, false, false, none⟩),
      ("tag", ⟨.string, true, false, true, none⟩)]
  { name := "list"
    base := variant "a.sql" [("id", ⟨.int, false, false, false, none⟩)]
    others := if swapped then [lacking, optional] else [optional, lacking] }

theorem later_variants_of_driftingEntry :
    (driftingEntry false).DistinctFiles ∧ (driftingEntry false).Reorders (driftingEntry true) ∧
      ∃ parameters other last later,
        (Parameters.ofEntry (driftingEntry false)).run.run .empty = (.ok parameters, last) ∧
          (Parameters.ofEntry (driftingEntry true)).run.run .empty = (.ok other, later) ∧
            parameters.SameInAnyOrder other ∧ parameters ≠ other := by
  have distinct : (driftingEntry false).DistinctFiles := by
    unfold Entry.DistinctFiles
    decide +kernel
  have reorders : (driftingEntry false).Reorders (driftingEntry true) :=
    ⟨rfl, rfl, List.Perm.swap _ _ _⟩
  have merges : ((Parameters.ofEntry (driftingEntry false)).run.run .empty).1.isOk = true := by
    decide +kernel
  have differ : ((Parameters.ofEntry (driftingEntry false)).run.run .empty).1.toOption ≠
      ((Parameters.ofEntry (driftingEntry true)).run.run .empty).1.toOption := by
    decide +kernel
  obtain ⟨succeeds, same⟩ := later_variants_commute distinct reorders .empty .empty
  obtain ⟨parameters, last, merged⟩ := Recording.exists_of_isOk merges
  obtain ⟨other, later, merged'⟩ := succeeds.mp ⟨parameters, last, merged⟩
  refine ⟨distinct, reorders, parameters, other, last, later, merged, merged',
    (same parameters other last later merged merged').1, ?_⟩
  rw [merged, merged'] at differ
  intro equal
  exact differ (congrArg some equal)

end QueryContract
