import Mathlib.Data.List.Basic
import QueryContract.Proofs.Text.Ascii
import QueryContract.Proofs.Text.Pieces
import QueryContract.Text.Lines

/-!
Texts without line feeds, such as the lines of a text, and texts with a carriage return before each
line feed.
-/

namespace QueryContract.Text

/-- No line ends inside of the text. -/
def Unbroken (text : String) : Prop := ∀ c ∈ text.toList, c ≠ '\n'

instance (text : String) : Decidable (Unbroken text) := List.decidableBAll _ _

/-- A carriage return comes before each line feed. -/
def withReturns (text : List Char) : List Char :=
  text.flatMap fun c => if c = '\n' then ['\r', '\n'] else [c]

variable {left right separator text : String} {chars : List Char}

theorem Unbroken.append (hl : Unbroken left) (hr : Unbroken right) : Unbroken (left ++ right) :=
  forall_mem_append hl hr

theorem Unbroken.intercalate {parts : List String} (hs : Unbroken separator)
    (h : ∀ part ∈ parts, Unbroken part) : Unbroken (separator.intercalate parts) :=
  forall_mem_intercalate hs h

theorem unbroken_ofList (h : ∀ c ∈ chars, c ≠ '\n') : Unbroken (String.ofList chars) := by
  rwa [Unbroken, String.toList_ofList]

theorem unbroken_of_isNamePart (h : ∀ c ∈ text.toList, isNamePart c = true) : Unbroken text :=
  fun c member => namePart_cases (p := fun c => c ≠ '\n') (by decide) (h c member)

theorem mem_terminated {piece line : List Char} {rest : List (List Char)}
    (h : line ∈ lines.terminated piece rest) : ∃ source ∈ piece :: rest, line ⊆ source := by
  induction rest generalizing piece with
  | nil =>
    rw [lines.terminated] at h
    split at h
    · cases h
    · rw [List.mem_singleton.mp h]
      exact ⟨piece, List.mem_cons_self, List.Subset.refl _⟩
  | cons next rest ih =>
    rcases List.mem_cons.mp h with rfl | later
    · refine ⟨piece, List.mem_cons_self, ?_⟩
      rw [dropCarriageReturn]
      split
      · exact List.dropLast_subset piece
      · exact List.Subset.refl _
    · obtain ⟨source, found, part⟩ := ih later
      exact ⟨source, List.mem_cons_of_mem _ found, part⟩

theorem lineFeed_not_mem_lines {line : List Char} (h : line ∈ lines chars) :
    ∀ c ∈ line, c ≠ '\n' := by
  unfold lines at h
  cases pieces : chars.splitOn '\n' with
  | nil => exact absurd pieces (List.splitOn_ne_nil _ _)
  | cons first rest =>
    rw [pieces] at h
    obtain ⟨piece, found, part⟩ := mem_terminated h
    rw [← pieces] at found
    intro c member
    exact (mem_of_mem_splitOn found (part member)).2

theorem withReturns_lines {lines : List String} (h : ∀ line ∈ lines, Unbroken line) :
    withReturns (lines.flatMap fun line => line.toList ++ ['\n']) =
      lines.flatMap fun line => line.toList ++ ['\r', '\n'] := by
  rw [withReturns, List.flatMap_assoc]
  apply List.flatMap_congr
  intro line member
  have kept : line.toList.flatMap (fun c => if c = '\n' then ['\r', '\n'] else [c]) =
      line.toList.flatMap fun c => [c] :=
    List.flatMap_congr fun c inside => if_neg (h line member c inside)
  rw [List.flatMap_append, kept, List.flatMap_singleton']
  rfl

/-- No line feed stands alone. -/
theorem getLast?_of_withReturns {before after : List Char}
    (split : withReturns chars = before ++ '\n' :: after) : before.getLast? = some '\r' := by
  induction chars generalizing before with
  | nil => simp [withReturns] at split
  | cons c rest ih =>
    rw [withReturns, List.flatMap_cons, ← withReturns] at split
    by_cases feed : c = '\n'
    · rw [if_pos feed] at split
      match before with
      | [] => cases split
      | [first] =>
        rw [← (List.cons.inj split).1]
        rfl
      | first :: second :: others =>
        have later := ih (List.cons.inj (List.cons.inj split).2).2
        simp [List.getLast?_cons, later]
    · rw [if_neg feed] at split
      match before with
      | [] => exact absurd (List.cons.inj split).1 feed
      | first :: others =>
        have later := ih (List.cons.inj split).2
        simp [List.getLast?_cons, later]

end QueryContract.Text
