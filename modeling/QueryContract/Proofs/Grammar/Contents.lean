import QueryContract.Proofs.Association
import QueryContract.Proofs.Grammar.QueryLines
import QueryContract.Proofs.Grammar.VariableLines

/-!
What a group holds after its own lines: the texts of its descriptions, its declarations by name, and
every line from its first query line on, each in the order of the lines.
-/

namespace QueryContract

open Text

namespace Line

def description? : Line → Option String
  | .directive (.description argument) => some (String.ofList argument)
  | _ => none

def declared? : Line → Option (String × Declaration)
  | .directive (.variable argument) =>
    match VariableLine.split? argument with
    | none => none
    | some parts =>
      match Declaration.read parts.type parts.default? with
      | .error _ => none
      | .ok declaration => some (String.ofList parts.name, declaration)
  | _ => none

theorem map_fst_declared? {line : Line} (formed : line.WellFormed) :
    line.declared?.map Prod.fst = line.variableName? := by
  cases line with
  | query text => rfl
  | comment text => rfl
  | directive directive =>
    cases directive with
    | «variable» argument =>
      obtain ⟨parts, declaration, split, -, declared⟩ := formed
      simp [declared?, variableName?, split, declared]
    | _ => rfl

theorem isName_of_declared? {line : Line} {pair : String × Declaration}
    (h : line.declared? = some pair) : isName pair.1.toList = true := by
  unfold declared? at h
  split at h
  · split at h
    · cases h
    rename_i parts split
    split at h
    · cases h
    · cases h
      obtain ⟨gap, tail, makes⟩ := VariableLine.makesUp_of_split? split
      rw [String.toList_ofList]
      exact makes.name
  · cases h

theorem ne_reservedName_of_declared? {line : Line} {pair : String × Declaration}
    (formed : line.WellFormed) (h : line.declared? = some pair) :
    pair.1 ≠ Reader.reservedName := by
  unfold declared? at h
  split at h
  · obtain ⟨parts, declaration, split, free, declared⟩ := formed
    rw [split] at h
    simp only [declared] at h
    cases h
    exact free
  · cases h

end Line

namespace OpenGroup

theorem doc_take (group : OpenGroup) (line : Line) :
    (group.take line).doc = group.doc ++ line.description?.toList := by
  cases line with
  | query text => exact (List.append_nil _).symm
  | comment text =>
    rw [take]
    split <;> exact (List.append_nil _).symm
  | directive directive =>
    cases directive with
    | description argument => rfl
    | «variable» argument =>
      simp only [take]
      split
      · exact (List.append_nil _).symm
      · split <;> exact (List.append_nil _).symm
    | _ => exact (List.append_nil _).symm

theorem line_takeAll (group : OpenGroup) (own : List Line) :
    (group.takeAll own).line = group.line := by
  induction own generalizing group with
  | nil => rfl
  | cons line rest ih =>
    rw [takeAll, List.foldl_cons, ← takeAll, ih, line_take]

/-- What every line adds at the end of a part of the group, all lines add in their order. -/
theorem part_takeAll {β : Type} {part : OpenGroup → List β} {given : Line → Option β}
    (ready : OpenGroup → Prop) (kept : ∀ group line, ready group → ready (group.take line))
    (step : ∀ group line, ready group → part (group.take line) = part group ++ (given line).toList)
    {group : OpenGroup} (h : ready group) (own : List Line) :
    part (group.takeAll own) = part group ++ own.filterMap given := by
  induction own generalizing group with
  | nil => exact (List.append_nil _).symm
  | cons line rest ih =>
    have later := ih (kept group line h)
    rw [step group line h, List.append_assoc] at later
    rw [takeAll, List.foldl_cons, ← takeAll, later, List.filterMap_cons]
    cases given line <;> rfl

theorem doc_takeAll (group : OpenGroup) (own : List Line) :
    (group.takeAll own).doc = group.doc ++ own.filterMap Line.description? :=
  part_takeAll (fun _ => True) (fun _ _ ready => ready)
    (fun group line _ => group.doc_take line) trivial own

theorem pairs_take (group : OpenGroup) (line : Line)
    (fresh : ∀ pair ∈ line.declared?, group.declarations.contains pair.1 = false) :
    (group.take line).declarations.pairs =
      group.declarations.pairs ++ line.declared?.toList := by
  cases line with
  | query text => exact (List.append_nil _).symm
  | comment text =>
    rw [take]
    split <;> exact (List.append_nil _).symm
  | directive directive =>
    cases directive with
    | «variable» argument =>
      cases split : VariableLine.split? argument with
      | none => simp [take, Line.declared?, split]
      | some parts =>
        cases declared : Declaration.read parts.type parts.default? with
        | error fault => simp [take, Line.declared?, split, declared]
        | ok declaration =>
          have absent : group.declarations.contains (String.ofList parts.name) = false :=
            fresh (String.ofList parts.name, declaration)
              (by simp [Line.declared?, split, declared])
          simp only [take, Line.declared?, split, declared]
          exact Association.pairs_put_of_absent absent declaration
    | _ => exact (List.append_nil _).symm

theorem pairs_takeAll (group : OpenGroup) {own : List Line}
    (formed : ∀ line ∈ own, line.WellFormed) (distinct : (variableNames own).Nodup)
    (fresh : ∀ name ∈ variableNames own, group.declarations.contains name = false) :
    (group.takeAll own).declarations.pairs =
      group.declarations.pairs ++ own.filterMap Line.declared? := by
  induction own generalizing group with
  | nil => exact (List.append_nil _).symm
  | cons line rest ih =>
    obtain ⟨first, others⟩ := List.forall_mem_cons.mp formed
    rw [variableNames_cons] at distinct fresh
    obtain ⟨-, distinctRest, apart⟩ := List.nodup_append.mp distinct
    have named : ∀ pair ∈ line.declared?, line.variableName? = some pair.1 := fun pair member => by
      rw [← Line.map_fst_declared? first, Option.mem_def.mp member]
      rfl
    have here := group.pairs_take line fun pair member =>
      fresh pair.1 (by simp [named pair member])
    have later := ih (group.take line) others distinctRest fun name member => by
      rw [group.contains_take first, fresh name (List.mem_append_right _ member)]
      have other : line.variableName? ≠ some name := fun same =>
        apart name (by simp [same]) name member rfl
      simp [other]
    rw [here, List.append_assoc] at later
    rw [takeAll, List.foldl_cons, ← takeAll, later, List.filterMap_cons]
    cases line.declared? <;> rfl

theorem query_take (group : OpenGroup) (line : Line) :
    (group.take line).query =
      if group.hasQuery || line.isQuery then
        group.query ++ (line.body?.map String.ofList).toList
      else [] := by
  have none : group.hasQuery = false → group.query = [] := by
    simp [hasQuery]
  cases line with
  | query text => simp [take, Line.isQuery, Line.body?]
  | comment text =>
    rw [take]
    cases query : group.hasQuery <;> simp [Line.isQuery, Line.body?, none, query]
  | directive directive =>
    obtain same : (group.take (.directive directive)).query = group.query := by
      cases directive with
      | «variable» argument =>
        simp only [take]
        split
        · rfl
        · split <;> rfl
      | _ => rfl
    cases query : group.hasQuery <;> simp [same, Line.isQuery, Line.body?, none, query]

end OpenGroup

/-- What own lines leave of a query: everything from the first query line on. -/
def queryTexts (own : List Line) : List (List Char) :=
  (own.dropWhile fun line => !line.isQuery).filterMap Line.body?

namespace OpenGroup

theorem query_takeAll_of_hasQuery {group : OpenGroup} (h : group.hasQuery = true)
    (own : List Line) :
    (group.takeAll own).query =
      group.query ++ own.filterMap fun line => line.body?.map String.ofList := by
  have kept (group : OpenGroup) (line : Line) (begun : group.hasQuery = true) :
      (group.take line).hasQuery = true := by
    rw [hasQuery_take, begun, Bool.true_or]
  have step (group : OpenGroup) (line : Line) (begun : group.hasQuery = true) :
      (group.take line).query = group.query ++ (line.body?.map String.ofList).toList := by
    rw [query_take, begun, Bool.true_or, if_pos rfl]
  exact part_takeAll _ kept step h own

theorem query_takeAll {group : OpenGroup} (h : group.hasQuery = false) (own : List Line) :
    (group.takeAll own).query = (queryTexts own).map String.ofList := by
  have none : group.query = [] := by simpa [hasQuery] using h
  induction own generalizing group with
  | nil => exact none
  | cons line rest ih =>
    rw [takeAll, List.foldl_cons, ← takeAll, queryTexts]
    cases query : line.isQuery with
    | false =>
      have waiting : (group.take line).hasQuery = false := by rw [hasQuery_take, h, query]; rfl
      have still : (group.take line).query = [] := by simpa [hasQuery] using waiting
      rw [List.dropWhile_cons_of_pos (by simp [query]), ih waiting still]
      rfl
    | true =>
      have begun : (group.take line).hasQuery = true := by rw [hasQuery_take, query, Bool.or_true]
      rw [query_takeAll_of_hasQuery begun, query_take, query, Bool.or_true, if_pos rfl, none,
        List.dropWhile_cons_of_neg (by simp [query]), List.map_filterMap, List.filterMap_cons]
      cases line.body? <;> rfl

end OpenGroup

section Texts

variable {own : List Line}

theorem Line.Sound.filter_body? {line : Line} (h : line.Sound) :
    line.body?.filter isQueryText = line.query? := by
  cases line with
  | directive directive => rfl
  | comment text => exact Option.filter_some_neg (by simp [h.query text rfl, Line.isQuery])
  | query text => exact Option.filter_some_pos (h.query text rfl)

theorem queryTexts_sound (sound : ∀ line ∈ own, line.Sound) :
    ∀ text ∈ queryTexts own, trimEnd text = text ∧ '\n' ∉ text := by
  intro text member
  obtain ⟨line, found, body⟩ := List.mem_filterMap.mp member
  have here := sound line (List.dropWhile_subset _ found)
  exact ⟨here.trimmed text body, here.unbroken text body⟩

/-- Comments apart, the texts of a query are those of the query lines. -/
theorem filter_queryTexts (sound : ∀ line ∈ own, line.Sound) :
    (queryTexts own).filter isQueryText = own.filterMap Line.query? := by
  induction own with
  | nil => rfl
  | cons line rest ih =>
    obtain ⟨first, others⟩ := List.forall_mem_cons.mp sound
    rw [queryTexts]
    cases query : line.isQuery with
    | true =>
      rw [List.dropWhile_cons_of_neg (by simp [query]), List.filter_filterMap]
      exact List.filterMap_congr fun other member => (sound other member).filter_body?
    | false =>
      have none : line.query? = none := by
        rw [← Option.isNone_iff_eq_none, ← Option.not_isSome, line.isSome_query?, query]
        rfl
      rw [List.dropWhile_cons_of_pos (by simp [query]), List.filterMap_cons_none none]
      exact ih others

theorem exists_head_queryTexts (sound : ∀ line ∈ own, line.Sound)
    (holds : ∃ line ∈ own, line.isQuery = true) :
    ∃ first rest, queryTexts own = first :: rest ∧ isQueryText first = true := by
  induction own with
  | nil => simp at holds
  | cons line rest ih =>
    obtain ⟨head, others⟩ := List.forall_mem_cons.mp sound
    cases line with
    | query text => exact ⟨text, rest.filterMap Line.body?, rfl, head.query text rfl⟩
    | comment text => exact ih others (by simpa [Line.isQuery] using holds)
    | directive directive => exact ih others (by simpa [Line.isQuery] using holds)

end Texts

section Endings

variable {first : List Char} {texts : List (List Char)}

theorem filter_rdropWhile_isEmpty (texts : List (List Char)) :
    (texts.rdropWhile List.isEmpty).filter isQueryText = texts.filter isQueryText := by
  induction texts using List.reverseRecOn with
  | nil => rfl
  | append_singleton before last ih =>
    by_cases empty : last.isEmpty = true
    · have blank : isQueryText last = false := by
        rw [List.isEmpty_iff.mp empty]
        rfl
      rw [List.rdropWhile_concat_pos _ _ _ empty, ih, List.filter_append,
        List.filter_singleton, blank]
      exact (List.append_nil _).symm
    · rw [List.rdropWhile_concat_neg _ _ _ empty]

theorem head?_rdropWhile_isEmpty (full : first ≠ []) :
    ((first :: texts).rdropWhile List.isEmpty).head? = some first := by
  have kept : (first :: texts).rdropWhile List.isEmpty ≠ [] := fun gone =>
    full (List.isEmpty_iff.mp (List.rdropWhile_eq_nil_iff.mp gone first List.mem_cons_self))
  obtain ⟨ending, split⟩ := List.rdropWhile_prefix List.isEmpty (first :: texts)
  obtain ⟨head, rest, shape⟩ := List.exists_cons_of_ne_nil kept
  rw [shape] at split ⊢
  exact congrArg some (List.cons.inj split).1

end Endings

end QueryContract
