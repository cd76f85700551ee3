import QueryContract.Proofs.Grammar.Steps

/-!
The nesting of groups. A forest is what stands between two brackets: lines of its own, and groups
that hold forests. Lines are those of a forest exactly if their brackets are balanced.
-/

namespace QueryContract

def Line.isBracket (line : Line) : Bool := line.isOpening || line.isClosing

inductive Forest where
  | nil
  | line (line : Line) (plain : line.isBracket = false) (rest : Forest)
  /-- A group comes first, with the text after its opening and after its closing. -/
  | group (name : List Char) (inside : Forest) (ending : List Char) (rest : Forest)

namespace Forest

def lines : Forest → List Line
  | nil => []
  | line first _ rest => first :: rest.lines
  | group name inside ending rest =>
    .directive (.opening name) :: (inside.lines ++ .directive (.closing ending) :: rest.lines)

def own : Forest → List Line
  | nil => []
  | line first _ rest => first :: rest.own
  | group _ _ _ rest => rest.own

def hasGroup : Forest → Bool
  | nil => false
  | line _ _ rest => rest.hasGroup
  | group _ _ _ _ => true

end Forest

/-- A group of a file: the names of the groups around it from the outside, its name, the number of
    its first line and what stands in it. -/
structure Group where
  around : List String
  name : String
  number : Nat
  inside : Forest

def Group.fullName (group : Group) : String := ".".intercalate (group.around ++ [group.name])

def Group.isLeaf (group : Group) : Bool := !group.inside.hasGroup

/-- All groups of a forest whose first line has the given number, in the order of their first
    lines. -/
def Forest.groups (around : List String) (number : Nat) : Forest → List Group
  | nil => []
  | line _ _ rest => rest.groups around (number + 1)
  | group name inside _ rest =>
    ⟨around, String.ofList name, number, inside⟩ ::
      (inside.groups (around ++ [String.ofList name]) (number + 1) ++
        rest.groups around (number + 1 + inside.lines.length + 1))

theorem Forest.groups_eq_nil_of_hasGroup {forest : Forest} (h : forest.hasGroup = false)
    (around : List String) (number : Nat) : forest.groups around number = [] := by
  induction forest generalizing number with
  | nil => rfl
  | line first plain rest ih => exact ih h (number + 1)
  | group name inside ending rest => cases h

def openings (lines : List Line) : Nat := lines.countP Line.isOpening

def closings (lines : List Line) : Nat := lines.countP Line.isClosing

theorem openings_append (earlier later : List Line) :
    openings (earlier ++ later) = openings earlier + openings later := List.countP_append

theorem closings_append (earlier later : List Line) :
    closings (earlier ++ later) = closings earlier + closings later := List.countP_append

/-- The brackets of lines that stand inside `depth` groups and close all of them. -/
structure Closes (depth : Nat) (lines : List Line) : Prop where
  never_below : ∀ before after, lines = before ++ after → closings before ≤ openings before + depth
  at_end : closings lines = openings lines + depth

/-- No group is closed before it is opened, and none is left open. -/
abbrev Balanced (lines : List Line) : Prop := Closes 0 lines

namespace Closes

variable {depth : Nat} {rest : List Line}

theorem tail {line : Line} {later : Nat} (opened closed : Nat) (h : Closes depth (line :: rest))
    (counts : ∀ lines, openings (line :: lines) = openings lines + opened ∧
      closings (line :: lines) = closings lines + closed)
    (balance : depth + opened = later + closed) : Closes later rest := by
  constructor
  · intro before after split
    have bound := h.never_below (line :: before) after (by rw [split]; rfl)
    have count := counts before
    omega
  · have ends := h.at_end
    have count := counts rest
    omega

theorem of_opening {name : List Char} (h : Closes depth (.directive (.opening name) :: rest)) :
    Closes (depth + 1) rest := by
  have counts : ∀ lines, openings (.directive (.opening name) :: lines) = openings lines + 1 ∧
      closings (.directive (.opening name) :: lines) = closings lines := fun lines =>
    ⟨List.countP_cons_of_pos rfl, List.countP_cons_of_neg Bool.false_ne_true⟩
  exact h.tail 1 0 counts rfl

theorem of_closing {ending : List Char} (h : Closes depth (.directive (.closing ending) :: rest)) :
    0 < depth ∧ Closes (depth - 1) rest := by
  have counts : ∀ lines, openings (.directive (.closing ending) :: lines) = openings lines ∧
      closings (.directive (.closing ending) :: lines) = closings lines + 1 := fun lines =>
    ⟨List.countP_cons_of_neg Bool.false_ne_true, List.countP_cons_of_pos rfl⟩
  have inner : 0 < depth := by
    have bound := h.never_below [.directive (.closing ending)] rest rfl
    have empty : openings [] = 0 ∧ closings [] = 0 := ⟨rfl, rfl⟩
    have count := counts []
    omega
  exact ⟨inner, h.tail 0 1 counts (by omega)⟩

theorem of_plain {line : Line} (plain : line.isBracket = false) (h : Closes depth (line :: rest)) :
    Closes depth rest := by
  obtain ⟨opens, closes⟩ := Bool.or_eq_false_iff.mp plain
  have counts : ∀ lines, openings (line :: lines) = openings lines ∧
      closings (line :: lines) = closings lines := fun lines =>
    ⟨List.countP_cons_of_neg (by simp [opens]), List.countP_cons_of_neg (by simp [closes])⟩
  exact h.tail 0 0 counts rfl

end Closes

/-- A forest and what follows the groups around it, each closed in turn. -/
def joined (first : Forest) : List (List Char × Forest) → List Line
  | [] => first.lines
  | (ending, next) :: rest => first.lines ++ .directive (.closing ending) :: joined next rest

theorem joined_line (line : Line) (plain : line.isBracket = false) (first : Forest)
    (rest : List (List Char × Forest)) :
    joined (.line line plain first) rest = line :: joined first rest := by
  cases rest <;> rfl

theorem joined_group (name ending : List Char) (inside next : Forest)
    (rest : List (List Char × Forest)) :
    joined (.group name inside ending next) rest =
      .directive (.opening name) :: joined inside ((ending, next) :: rest) := by
  cases rest with
  | nil => rfl
  | cons pair rest => simp [joined, Forest.lines]

theorem exists_joined {depth : Nat} {lines : List Line} (h : Closes depth lines) :
    ∃ first rest, rest.length = depth ∧ joined first rest = lines := by
  induction lines generalizing depth with
  | nil =>
    have ends := h.at_end
    exact ⟨.nil, [], by simpa [closings, openings] using ends, rfl⟩
  | cons line rest ih =>
    by_cases plain : line.isBracket = false
    · obtain ⟨first, others, count, same⟩ := ih (h.of_plain plain)
      exact ⟨.line line plain first, others, count, by rw [joined_line, same]⟩
    · match line, plain, h with
      | .directive (.opening name), _, h =>
        obtain ⟨inside, others, count, same⟩ := ih h.of_opening
        match others, count with
        | (ending, next) :: others, count =>
          refine ⟨.group name inside ending next, others, Nat.succ.inj count, ?_⟩
          rw [joined_group, same]
      | .directive (.closing ending), _, h =>
        obtain ⟨inner, closes⟩ := h.of_closing
        obtain ⟨first, others, count, same⟩ := ih closes
        refine ⟨.nil, (ending, first) :: others, ?_, ?_⟩
        · rw [List.length_cons, count, Nat.sub_add_cancel inner]
        · rw [joined, same]
          rfl

theorem Balanced.exists_forest {lines : List Line} (h : Balanced lines) :
    ∃ forest : Forest, forest.lines = lines := by
  obtain ⟨first, rest, count, same⟩ := exists_joined h
  rw [List.length_eq_zero_iff.mp count] at same
  exact ⟨first, same⟩

end QueryContract
