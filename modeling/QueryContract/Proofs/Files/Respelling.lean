import Mathlib.Logic.Relation
import QueryContract.Proofs.Files.Resolving
import QueryContract.Proofs.Text.Joining

/-!
When two path texts name the same place. Repeated slashes, slashes at the end and dots after a slash
name nothing and can be left out; what is left is the spelling of the components, so no other change
keeps them.
-/

namespace QueryContract.Path

open Relation (EqvGen)

/-- Leaves out a slash or a dot that names nothing. -/
inductive Shortens : List Char → List Char → Prop
  | slash (before after : List Char) :
    Shortens (before ++ '/' :: '/' :: after) (before ++ '/' :: after)
  | dot (before after : List Char) :
    Shortens (before ++ '/' :: '.' :: '/' :: after) (before ++ '/' :: after)
  | lastDot (before : List Char) : Shortens (before ++ ['/', '.']) (before ++ ['/'])
  | lastSlash (before : List Char) (written : before ≠ []) : Shortens (before ++ ['/']) before

/-- The texts come from each other by leaving out such characters and putting them in. -/
def Respells (left right : Path) : Prop := EqvGen Shortens left.text.toList right.text.toList

/-! What is left out is not seen in the components. -/

def componentsOf (text : List Char) : List Component := (Path.mk (String.ofList text)).components

/-- What segments name that stand behind a slash. -/
def namedBy (segments : List (List Char)) : List Component :=
  segments.filterMap fun segment => Component.ofSegment? (String.ofList segment)

def named (text : List Char) : List Component := namedBy (text.splitOn '/')

variable {left right : List Char}

theorem named_slash (before after : List Char) :
    named (before ++ '/' :: after) = named before ++ named after := by
  rw [named, namedBy, Text.splitOn_append_separator, List.filterMap_append]
  rfl

theorem componentsOf_append (before : List Char) : ∃ above, ∀ after : List Char,
    componentsOf (before ++ '/' :: after) = above ++ named after := by
  have slash : (String.ofList (before ++ ['/'])).toList = before ++ ['/'] := String.toList_ofList
  obtain ⟨above, components⟩ := components_append slash
  refine ⟨above, fun after => ?_⟩
  rw [componentsOf, List.append_cons, String.ofList_append, components, segments,
    String.toList_ofList, List.filterMap_map]
  rfl

theorem componentsOf_slash {text : List Char} (written : text ≠ []) :
    componentsOf (text ++ ['/']) = componentsOf text := by
  obtain ⟨c, rest, rfl⟩ := List.exists_cons_of_ne_nil written
  obtain ⟨first, others, split⟩ :=
    List.exists_cons_of_ne_nil (List.splitOn_ne_nil '/' (c :: rest))
  have longer : (c :: rest ++ ['/']).splitOn '/' = (first :: others) ++ [[]] := by
    rw [Text.splitOn_append_separator, split]
    rfl
  simp only [componentsOf, components, segments, isAbsolute, String.toList_ofList, longer, split,
    List.map_append, List.filterMap_append]
  simp [Component.ofSegment?]

theorem componentsOf_of_shortens (h : Shortens left right) :
    componentsOf left = componentsOf right := by
  cases h with
  | slash before after =>
    obtain ⟨above, components⟩ := componentsOf_append before
    rw [components, components]
    show above ++ named ([] ++ '/' :: after) = _
    rw [named_slash]
    rfl
  | dot before after =>
    obtain ⟨above, components⟩ := componentsOf_append before
    rw [components, components]
    show above ++ named (['.'] ++ '/' :: after) = _
    rw [named_slash]
    rfl
  | lastDot before =>
    obtain ⟨above, components⟩ := componentsOf_append before
    rw [components, components]
    rfl
  | lastSlash before written => exact componentsOf_slash written

theorem componentsOf_of_eqvGen (h : EqvGen Shortens left right) :
    componentsOf left = componentsOf right := by
  induction h with
  | rel left right shortens => exact componentsOf_of_shortens shortens
  | refl text => rfl
  | symm left right _ ih => exact ih.symm
  | trans left middle right _ _ first second => exact first.trans second

/-! Every text can be turned into the one that spells its components. -/

/-- The root has no letters of its own: it is told by the slash that follows. -/
def Component.letters : Component → List Char
  | root => []
  | here => ['.']
  | parent => ['.', '.']
  | name text => text.toList

def spelledBelow (components : List Component) : List Char :=
  components.flatMap fun component => '/' :: component.letters

def spelled : List Component → List Char
  | [] => []
  | [.root] => ['/']
  | first :: rest => first.letters ++ spelledBelow rest

theorem Component.letters_of_ofSegment? {segment : List Char} {component : Component}
    (h : ofSegment? (String.ofList segment) = some component) : component.letters = segment := by
  unfold ofSegment? at h
  split at h
  · cases h
  split at h
  · rename_i parent
    cases h
    rw [← String.toList_ofList (l := segment), parent]
    rfl
  · cases h
    exact String.toList_ofList

theorem Component.ofSegment?_eq_none {segment : List Char}
    (h : ofSegment? (String.ofList segment) = none) : segment = [] ∨ segment = ['.'] := by
  unfold ofSegment? at h
  split at h
  · rename_i idle
    apply idle.imp
    · intro empty
      exact String.ofList_eq_empty_iff.mp empty
    · intro dot
      rw [← String.toList_ofList (l := segment), dot]
      rfl
  · split at h <;> cases h

theorem eqvGen_between (front after : List Char) {segment : List Char}
    (idle : segment = [] ∨ segment = ['.']) :
    EqvGen Shortens (front ++ ('/' :: segment ++ '/' :: after)) (front ++ '/' :: after) := by
  rcases idle with rfl | rfl
  · exact .rel _ _ (.slash front after)
  · exact .rel _ _ (.dot front after)

theorem eqvGen_last (front : List Char) {segment : List Char}
    (idle : segment = [] ∨ segment = ['.']) :
    EqvGen Shortens (front ++ '/' :: segment) (front ++ ['/']) := by
  rcases idle with rfl | rfl
  · exact .refl _
  · exact .rel _ _ (.lastDot front)

/-- Behind a text that is not empty, all that is left of segments is what they name. -/
theorem eqvGen_below (front : List Char) (written : front ≠ []) (rest : List (List Char)) :
    EqvGen Shortens (front ++ rest.flatMap (['/'] ++ ·)) (front ++ spelledBelow (namedBy rest)) := by
  induction rest generalizing front with
  | nil => exact .refl _
  | cons segment others ih =>
    rw [List.flatMap_cons, namedBy, List.filterMap_cons]
    cases name : Component.ofSegment? (String.ofList segment) with
    | some component =>
      have longer := ih (front ++ '/' :: segment) (by simp)
      rw [spelledBelow, List.flatMap_cons, Component.letters_of_ofSegment? name]
      simpa [spelledBelow, namedBy] using longer
    | none =>
      have idle := Component.ofSegment?_eq_none name
      refine .trans _ _ _ ?_ (ih front written)
      cases others with
      | nil =>
        -- nothing is named behind the last slash, so it goes as well
        have slash := eqvGen_last front idle
        simpa using slash.trans _ _ _ (.rel _ _ (.lastSlash front written))
      | cons next more =>
        have skipped := eqvGen_between front (next ++ more.flatMap (['/'] ++ ·)) idle
        simpa using skipped

/-- The slash that stands for the root is left even if nothing is named below. -/
theorem eqvGen_root (rest : List (List Char)) (below : rest ≠ []) :
    EqvGen Shortens (rest.flatMap (['/'] ++ ·)) (spelled (.root :: namedBy rest)) := by
  induction rest with
  | nil => exact absurd rfl below
  | cons segment others ih =>
    rw [List.flatMap_cons, namedBy, List.filterMap_cons]
    cases name : Component.ofSegment? (String.ofList segment) with
    | some component =>
      have below := eqvGen_below ('/' :: segment) (by simp) others
      rw [← Component.letters_of_ofSegment? name] at below ⊢
      exact below
    | none =>
      have idle := Component.ofSegment?_eq_none name
      cases others with
      | nil =>
        have slash := eqvGen_last [] idle
        rw [List.flatMap_nil, List.append_nil]
        exact slash
      | cons next more =>
        have skipped := eqvGen_between [] (next ++ more.flatMap (['/'] ++ ·)) idle
        refine .trans _ _ _ ?_ (ih (List.cons_ne_nil next more))
        simpa using skipped

theorem spelled_cons {first : Component} (below : first ≠ .root) (rest : List Component) :
    spelled (first :: rest) = first.letters ++ spelledBelow rest := by
  cases first with
  | root => exact absurd rfl below
  | _ => cases rest <;> rfl

theorem text_of_split {text first : List Char} {rest : List (List Char)}
    (split : text.splitOn '/' = first :: rest) : first ++ rest.flatMap (['/'] ++ ·) = text := by
  rw [← Text.intercalate_cons, ← split, List.intercalate_splitOn]

/-- A text that does not start with a slash starts with its first component. -/
theorem exists_first {text first : List Char} {rest : List (List Char)}
    (split : text.splitOn '/' = first :: rest) (written : first ≠ []) :
    ∃ component : Component, component ≠ .root ∧ component.letters = first ∧
      componentsOf text = component :: namedBy rest := by
  have relative : (Path.mk (String.ofList text)).isAbsolute = false := by
    have inFirst : first ∈ text.splitOn '/' := by rw [split]; exact List.mem_cons_self
    obtain ⟨c, others, rfl⟩ := List.exists_cons_of_ne_nil written
    have plain := (Text.mem_of_mem_splitOn inFirst List.mem_cons_self).2
    rw [isAbsolute, String.toList_ofList, ← text_of_split split]
    simpa using plain
  have segments : (Path.mk (String.ofList text)).segments =
      String.ofList first :: rest.map String.ofList := by
    rw [Path.segments, String.toList_ofList, split, List.map_cons]
  rw [componentsOf, Path.components, relative, segments]
  by_cases dot : first = ['.']
  · refine ⟨.here, by decide, dot.symm, ?_⟩
    rw [dot, List.filterMap_cons, List.filterMap_map]
    rfl
  · have solid : String.ofList first ≠ "." := fun same => dot <| by
      rw [← String.toList_ofList (l := first), same]
      rfl
    cases name : Component.ofSegment? (String.ofList first) with
    | none => exact ((Component.ofSegment?_eq_none name).elim written dot).elim
    | some component =>
      refine ⟨component, ?_, Component.letters_of_ofSegment? name, ?_⟩
      · intro root
        rw [← Component.letters_of_ofSegment? name, root] at written
        exact written rfl
      · rw [List.filterMap_cons, name, List.filterMap_map, List.head?_cons,
          if_neg Bool.false_ne_true, if_neg (fun same => solid (Option.some.inj same))]
        rfl

/-- A text that starts with a slash starts with the root. -/
theorem componentsOf_absolute {text : List Char} {rest : List (List Char)}
    (split : text.splitOn '/' = [] :: rest) (below : rest ≠ []) :
    componentsOf text = .root :: namedBy rest := by
  have absolute : (Path.mk (String.ofList text)).isAbsolute = true := by
    obtain ⟨next, more, rfl⟩ := List.exists_cons_of_ne_nil below
    rw [isAbsolute, String.toList_ofList, ← text_of_split split]
    rfl
  rw [componentsOf, Path.components, absolute, Path.segments, String.toList_ofList, split,
    List.map_cons, List.filterMap_cons, List.filterMap_map]
  rfl

theorem eqvGen_spelled (text : List Char) : EqvGen Shortens text (spelled (componentsOf text)) := by
  obtain ⟨first, rest, split⟩ := List.exists_cons_of_ne_nil (List.splitOn_ne_nil '/' text)
  have whole := text_of_split split
  by_cases written : first = []
  · subst written
    by_cases below : rest = []
    · subst below
      rw [← whole]
      exact .refl _
    · rw [componentsOf_absolute split below]
      conv_lhs => rw [← whole]
      exact eqvGen_root rest below
  · obtain ⟨component, below, letters, components⟩ := exists_first split written
    rw [components, spelled_cons below, letters]
    conv_lhs => rw [← whole]
    exact eqvGen_below first written rest

theorem componentsOf_text (path : Path) : componentsOf path.text.toList = path.components := by
  rw [componentsOf, String.ofList_toList]

/-- Paths are the same if and only if they differ in nothing but what can be left out. -/
theorem same_iff_respells {left right : Path} : left.same right = true ↔ left.Respells right := by
  rw [same, decide_eq_true_eq, ← componentsOf_text, ← componentsOf_text]
  apply Iff.intro
  · intro same
    have first := eqvGen_spelled left.text.toList
    have second := eqvGen_spelled right.text.toList
    rw [same] at first
    exact first.trans _ _ _ (second.symm _ _)
  · exact componentsOf_of_eqvGen

example : ¬ Respells ⟨"./a"⟩ ⟨"a"⟩ ∧ ¬ Respells ⟨"b/../a"⟩ ⟨"a"⟩ ∧ Respells ⟨"b//./a/"⟩ ⟨"b/a"⟩ := by
  simp only [← same_iff_respells]
  decide

end QueryContract.Path
