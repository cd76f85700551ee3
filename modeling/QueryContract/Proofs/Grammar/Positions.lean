import QueryContract.Proofs.Grammar.Forest

/-!
The groups of a forest by the places of their first lines: each stands where its number says, and
they are listed in that order. Lines are those of one forest only.
-/

namespace QueryContract

/-- The group opens with the line of its number, in lines counted from `number` on. -/
def Group.OpensIn (group : Group) (number : Nat) (lines : List Line) : Prop :=
  ∃ name before after, lines = before ++ .directive (.opening name) :: after ∧
    group.name = String.ofList name ∧ group.number = number + before.length

namespace Forest

variable {group : Group}

theorem opensIn_of_mem_groups {forest : Forest} {around : List String} {number : Nat}
    (h : group ∈ forest.groups around number) : group.OpensIn number forest.lines := by
  induction forest generalizing around number with
  | nil => cases h
  | line line plain rest ih =>
    obtain ⟨name, before, after, split, named, place⟩ := ih h
    refine ⟨name, line :: before, after, by rw [lines, split]; rfl, named, ?_⟩
    rw [place, List.length_cons]
    omega
  | group name inside ending rest ihInside ihRest =>
    rcases List.mem_cons.mp h with rfl | h
    · exact ⟨name, [], _, rfl, rfl, rfl⟩
    · rcases List.mem_append.mp h with within | later
      · obtain ⟨own, before, after, split, named, place⟩ := ihInside within
        refine ⟨own, .directive (.opening name) :: before,
          after ++ .directive (.closing ending) :: rest.lines, ?_, named, ?_⟩
        · rw [lines, split, List.append_assoc]
          rfl
        · rw [place, List.length_cons]
          omega
      · obtain ⟨own, before, after, split, named, place⟩ := ihRest later
        refine ⟨own, .directive (.opening name) ::
          (inside.lines ++ .directive (.closing ending) :: before), after, ?_, named, ?_⟩
        · rw [lines, split]
          simp
        · rw [place]
          simp only [List.length_cons, List.length_append]
          omega

theorem number_bounds_of_mem_groups {forest : Forest} {around : List String} {number : Nat}
    (h : group ∈ forest.groups around number) :
    number ≤ group.number ∧ group.number < number + forest.lines.length := by
  obtain ⟨name, before, after, split, -, place⟩ := opensIn_of_mem_groups h
  rw [place, split, List.length_append, List.length_cons]
  omega

theorem pairwise_number_groups (forest : Forest) (around : List String) (number : Nat) :
    (forest.groups around number).Pairwise fun earlier later => earlier.number < later.number := by
  induction forest generalizing around number with
  | nil => exact .nil
  | line line plain rest ih => exact ih around (number + 1)
  | group name inside ending rest ihInside ihRest =>
    refine List.pairwise_cons.mpr ⟨fun later member => ?_, List.pairwise_append.mpr
      ⟨ihInside _ _, ihRest _ _, fun earlier within later after => ?_⟩⟩
    · rcases List.mem_append.mp member with within | after
      · exact (number_bounds_of_mem_groups within).1
      · have bounds := number_bounds_of_mem_groups after
        dsimp only
        omega
    · have first := number_bounds_of_mem_groups within
      have second := number_bounds_of_mem_groups after
      omega

/-- Nothing follows, or the closing of a group around. -/
def ClosesNext (after : List Line) : Prop := ∀ next ∈ after.head?, next.isClosing = true

theorem not_closesNext_of_plain {first : Line} (plain : first.isBracket = false)
    (after : List Line) : ¬ClosesNext (first :: after) := by
  intro closes
  have closing := closes first rfl
  rw [Line.isBracket, closing, Bool.or_true] at plain
  cases plain

theorem not_closesNext_of_opening (name : List Char) (after : List Line) :
    ¬ClosesNext (.directive (.opening name) :: after) :=
  fun closes => Bool.false_ne_true (closes _ rfl)

theorem eq_of_lines_append_eq {forest other : Forest} {after later : List Line}
    (closes : ClosesNext after) (closesLater : ClosesNext later)
    (same : forest.lines ++ after = other.lines ++ later) : forest = other ∧ after = later := by
  induction forest generalizing other after later with
  | nil =>
    cases other with
    | nil => exact ⟨rfl, same⟩
    | line first plain rest =>
      subst same
      exact absurd closes (not_closesNext_of_plain plain _)
    | group name inside ending rest =>
      subst same
      exact absurd closes (not_closesNext_of_opening name _)
  | line first plain rest ih =>
    cases other with
    | nil =>
      subst same
      exact absurd closesLater (not_closesNext_of_plain plain _)
    | line second plain' rest' =>
      obtain ⟨rfl, tail⟩ := List.cons.inj same
      obtain ⟨rfl, rfl⟩ := ih closes closesLater tail
      exact ⟨rfl, rfl⟩
    | group name inside ending rest' =>
      obtain ⟨rfl, -⟩ := List.cons.inj same
      cases plain
  | group name inside ending rest ihInside ihRest =>
    cases other with
    | nil =>
      subst same
      exact absurd closesLater (not_closesNext_of_opening name _)
    | line first plain rest' =>
      obtain ⟨rfl, -⟩ := List.cons.inj same
      cases plain
    | group name' inside' ending' rest' =>
      rw [lines, lines, List.cons_append, List.cons_append, List.append_assoc,
        List.append_assoc] at same
      obtain ⟨opened, body⟩ := List.cons.inj same
      cases opened
      have ends (ending : List Char) (after : List Line) :
          ClosesNext (.directive (.closing ending) :: after) := by
        rintro next ⟨⟩
        rfl
      obtain ⟨rfl, closed⟩ := ihInside (ends _ _) (ends _ _) body
      obtain ⟨ended, tail⟩ := List.cons.inj closed
      cases ended
      obtain ⟨rfl, rfl⟩ := ihRest closes closesLater tail
      exact ⟨rfl, rfl⟩

theorem lines_injective {forest other : Forest} (same : forest.lines = other.lines) :
    forest = other := by
  have closes : ClosesNext [] := nofun
  exact (eq_of_lines_append_eq closes closes (by rw [same])).1

end Forest

end QueryContract
