/-!
Checks made one after another: a run over a list ends well when each check does, and otherwise it
ends at the first item that fails.
-/

namespace QueryContract

variable {ε α β σ : Type}

/-- The fault that an outcome ends in, if it does. -/
def fault? : Except ε α → Option ε
  | .ok _ => none
  | .error fault => some fault

theorem fault?_eq_some_iff {outcome : Except ε α} {fault : ε} :
    fault? outcome = some fault ↔ outcome = .error fault := by
  cases outcome <;> simp [fault?]

theorem fault?_bind_pure (outcome : Except ε α) (result : α → β) :
    fault? (outcome >>= fun value => pure (result value)) = fault? outcome := by
  cases outcome <;> rfl

theorem fault?_mapM (check : α → Except ε β) (items : List α) :
    fault? (items.mapM check) = items.findSome? fun item => fault? (check item) := by
  induction items with
  | nil => rfl
  | cons item rest ih =>
    rw [List.mapM_cons, List.findSome?_cons, ← ih]
    cases check item with
    | error fault => rfl
    | ok value => cases rest.mapM check <;> rfl

theorem exists_of_bind_eq_ok {first : Except ε α} {next : α → Except ε β} {value : β}
    (h : (first >>= next) = .ok value) : ∃ middle, first = .ok middle ∧ next middle = .ok value := by
  cases first with
  | error fault => cases h
  | ok middle => exact ⟨middle, rfl, h⟩

theorem mapM_eq_ok {check : α → Except ε β} {result : α → β} {items : List α}
    (h : ∀ item ∈ items, check item = .ok (result item)) :
    items.mapM check = .ok (items.map result) := by
  induction items with
  | nil => rfl
  | cons item rest ih =>
    have first := h item List.mem_cons_self
    have others := ih fun other member => h other (List.mem_cons_of_mem _ member)
    rw [List.mapM_cons, first, others]
    rfl

theorem cons_of_mapM_eq_ok {check : α → Except ε β} {item : α} {rest : List α} {values : List β}
    (h : (item :: rest).mapM check = .ok values) : ∃ value later,
      check item = .ok value ∧ rest.mapM check = .ok later ∧ values = value :: later := by
  rw [List.mapM_cons] at h
  obtain ⟨value, first, h⟩ := exists_of_bind_eq_ok h
  obtain ⟨later, others, h⟩ := exists_of_bind_eq_ok h
  exact ⟨value, later, first, others, (Except.ok.inj h).symm⟩

theorem ok_of_mapM_eq_ok {check : α → Except ε β} {items : List α} {values : List β}
    (h : items.mapM check = .ok values) : ∀ item ∈ items, ∃ value, check item = .ok value := by
  induction items generalizing values with
  | nil => simp
  | cons item rest ih =>
    obtain ⟨value, later, first, others, rfl⟩ := cons_of_mapM_eq_ok h
    exact List.forall_mem_cons.mpr ⟨⟨value, first⟩, ih others⟩

/-- A run that ends well ends alike with checks that give the same values. -/
theorem mapM_congr_of_ok {check other : α → Except ε β} {items : List α} {values : List β}
    (same : ∀ item ∈ items, ∀ value, check item = .ok value → other item = .ok value)
    (h : items.mapM check = .ok values) : items.mapM other = .ok values := by
  induction items generalizing values with
  | nil => exact h
  | cons item rest ih =>
    obtain ⟨value, later, first, others, rfl⟩ := cons_of_mapM_eq_ok h
    obtain ⟨here, after⟩ := List.forall_mem_cons.mp same
    rw [List.mapM_cons, here value first, ih after others]
    rfl

/-- If each value tells from which item it comes, then all values tell all items. -/
theorem map_of_mapM_eq_ok {check : α → Except ε β} {told : β → α}
    (tells : ∀ item value, check item = .ok value → told value = item) {items : List α}
    {values : List β} (h : items.mapM check = .ok values) : values.map told = items := by
  induction items generalizing values with
  | nil => cases h; rfl
  | cons item rest ih =>
    obtain ⟨value, later, first, others, rfl⟩ := cons_of_mapM_eq_ok h
    rw [List.map_cons, tells item value first, ih others]

theorem forall_of_mapM_eq_ok {check : α → Except ε β} {holds : β → Prop}
    (each : ∀ item value, check item = .ok value → holds value) {items : List α}
    {values : List β} (h : items.mapM check = .ok values) : ∀ value ∈ values, holds value := by
  induction items generalizing values with
  | nil => cases h; exact nofun
  | cons item rest ih =>
    obtain ⟨value, later, first, others, rfl⟩ := cons_of_mapM_eq_ok h
    exact List.forall_mem_cons.mpr ⟨each item value first, ih others⟩

theorem first_fault_of_mapM {check : α → Except ε β} {items : List α} {fault : ε}
    (h : items.mapM check = .error fault) :
    ∃ before item after, items = before ++ item :: after ∧
      (∀ passed ∈ before, ∃ value, check passed = .ok value) ∧ check item = .error fault := by
  induction items with
  | nil => cases h
  | cons item rest ih =>
    rw [List.mapM_cons] at h
    cases first : check item with
    | error found =>
      rw [first] at h
      cases h
      exact ⟨[], item, rest, rfl, by simp, first⟩
    | ok value =>
      rw [first] at h
      cases others : rest.mapM check with
      | ok later => rw [others] at h; cases h
      | error found =>
        rw [others] at h
        cases h
        obtain ⟨before, failing, after, rfl, passed, fails⟩ := ih others
        refine ⟨item :: before, failing, after, rfl, ?_, fails⟩
        intro member hm
        rcases List.mem_cons.mp hm with rfl | hm
        · exact ⟨value, first⟩
        · exact passed member hm

theorem first_fault_of_foldlM {step : σ → α → Except ε σ} {items : List α} {state : σ} {fault : ε}
    (h : items.foldlM step state = .error fault) :
    ∃ before item after middle, items = before ++ item :: after ∧
      before.foldlM step state = .ok middle ∧ step middle item = .error fault := by
  induction items generalizing state with
  | nil => cases h
  | cons item rest ih =>
    rw [List.foldlM_cons] at h
    cases first : step state item with
    | error found =>
      rw [first] at h
      cases h
      exact ⟨[], item, rest, state, rfl, rfl, first⟩
    | ok next =>
      rw [first] at h
      obtain ⟨before, failing, after, middle, rfl, passed, fails⟩ := ih h
      refine ⟨item :: before, failing, after, middle, rfl, ?_, fails⟩
      rw [List.foldlM_cons, first]
      exact passed

end QueryContract
