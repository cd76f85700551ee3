import Mathlib.Data.List.Basic

/-!
Lists in strict order of a key: sorting makes one of items with different keys, and there is only
one for any items.
-/

namespace QueryContract

variable {α κ : Type} {key : α → κ} {order : κ → κ → Ordering}

theorem pairwise_mergeSort_of_distinct [Std.TransCmp order] [Std.LawfulEqCmp order]
    {items : List α} (distinct : (items.map key).Nodup) :
    (items.mergeSort fun left right => (order (key left) (key right)).isLE).Pairwise
      fun earlier later => order (key earlier) (key later) = .lt := by
  let sorted := items.mergeSort fun left right => (order (key left) (key right)).isLE
  have ordered : sorted.Pairwise fun earlier later =>
      (order (key earlier) (key later)).isLE = true := by
    apply List.pairwise_mergeSort
    · exact fun _ _ _ => Std.TransCmp.isLE_trans
    · intro left right
      have swapped : order (key left) (key right) = (order (key right) (key left)).swap :=
        Std.OrientedCmp.eq_swap
      rw [swapped]
      cases order (key right) (key left) <;> rfl
  have apart : (sorted.map key).Nodup :=
    ((List.mergeSort_perm items _).map key).nodup_iff.mpr distinct
  refine ordered.imp₂ (fun earlier later notGreater apart => ?_) (List.pairwise_map.mp apart)
  cases compared : order (key earlier) (key later) with
  | lt => rfl
  | eq => exact absurd (Std.LawfulEqCmp.eq_of_compare compared) apart
  | gt =>
    rw [compared] at notGreater
    cases notGreater

/-- Lists in strict order are equal if they have the same members. -/
theorem eq_of_strictlyOrdered [Std.OrientedCmp order] {left right : List α}
    (hl : left.Pairwise fun earlier later => order (key earlier) (key later) = .lt)
    (hr : right.Pairwise fun earlier later => order (key earlier) (key later) = .lt)
    (same : ∀ item, item ∈ left ↔ item ∈ right) : left = right := by
  have distinct {items : List α}
      (h : items.Pairwise fun earlier later => order (key earlier) (key later) = .lt) :
      items.Nodup := h.imp fun {earlier later} less equal => by
    subst equal
    exact Std.OrientedCmp.not_lt_of_lt less less
  have reordered := (List.perm_ext_iff_of_nodup (distinct hl) (distinct hr)).mpr same
  refine List.Perm.eq_of_pairwise (fun a b _ _ less greater => ?_) hl hr reordered
  exact absurd greater (Std.OrientedCmp.not_lt_of_lt less)

end QueryContract
