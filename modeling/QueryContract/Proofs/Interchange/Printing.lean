import QueryContract.Proofs.Interchange.Building

/-!
JSON text read back. Both printed forms of a value write it, so that reading either gives the value,
as long as its numbers come back from their own texts.
-/

namespace QueryContract.Interchange.Json

open Token (Spells isGap)

/-- The integers of the value fit into 64 bits, and its doubles come back from their texts. -/
inductive Legible : Json → Prop where
  | null : Legible .null
  | bool (value : Bool) : Legible (.bool value)
  | integer {value : Int} (low : -(Nat.pow 2 63 : Nat) ≤ value) (high : value < Nat.pow 2 64) :
    Legible (.integer value)
  | real {value : Number.Binary64}
    (reads : JsonNumber.read? (realText value).toList = some (.real value)) : Legible (.real value)
  | string (value : String) : Legible (.string value)
  | array {items : List Json} (each : ∀ item ∈ items, Legible item) : Legible (.array items)
  | object {members : List (String × Json)} (each : ∀ member ∈ members, Legible member.2) :
    Legible (.object members)

section Scalars

variable {value : Json} {text : List Char}

theorem writes_number (h : JsonNumber.read? text = some value) : Writes text value := by
  have apart {word : List Char} (unread : JsonNumber.read? word = none) : text ≠ word := by
    rintro rfl
    rw [unread] at h
    cases h
  have read : Token.ofWord? text = some (.scalar value) := by
    have other {word : String} (unread : JsonNumber.read? word.toList = none) :
        String.ofList text ≠ word := by
      rintro rfl
      rw [String.toList_ofList] at unread
      exact apart unread rfl
    unfold Token.ofWord?
    split
    · rename_i same
      exact absurd same (other (by decide))
    · rename_i same
      exact absurd same (other (by decide))
    · rename_i same
      exact absurd same (other (by decide))
    · rw [h, Option.map_some]
  refine writes_scalar (Token.spells_word (fun c member => ?_) (apart rfl) read)
  exact JsonNumber.isBreak_eq_false_of_isNumberPart (JsonNumber.isNumberPart_of_read? h c member)

theorem writes_word {word : String} (solid : (word.toList.all fun c => !Token.isBreak c) = true)
    (full : word.toList ≠ []) (read : Token.ofWord? word.toList = some (.scalar value)) :
    Writes word.toList value := by
  refine writes_scalar (Token.spells_word (fun c member => ?_) full read)
  simpa using List.all_eq_true.mp solid c member

theorem writes_string (value : String) : Writes (quote value).toList (.string value) := by
  rw [quote, String.toList_ofList]
  exact writes_scalar (Token.spells_quoted value)

end Scalars

section Containers

variable {α : Type} {container : Container α} {items : List α} {render : α → String}
  {opening closing : String}

theorem Container.WritesItem.gap {gap text : List Char} {item : α}
    (blank : ∀ c ∈ gap, isGap c = true) (h : container.WritesItem text item) :
    container.WritesItem (gap ++ text) item := by
  obtain ⟨tokens, spells, builds⟩ := h
  exact ⟨tokens, spells.gap blank, builds⟩

theorem writesItem_of_writes {text : List Char} {item : Json} (h : Writes text item) :
    arrays.WritesItem text item := by
  obtain ⟨tokens, spells, builds⟩ := h
  exact ⟨tokens, spells, fun latest outer expected awaited => builds _ awaited.symm⟩

theorem writesItem_member {text : List Char} {gap : List Char} (blank : ∀ c ∈ gap, isGap c = true)
    (name : String) {value : Json} (h : Writes text value) :
    objects.WritesItem ((quote name).toList ++ ':' :: gap ++ text) (name, value) := by
  obtain ⟨tokens, spells, builds⟩ := h
  have quoted : Spells (quote name).toList [.scalar (.string name)] := by
    rw [quote, String.toList_ofList]
    exact Token.spells_quoted name
  refine ⟨.scalar (.string name) :: .colon :: tokens, ?_, fun latest outer expected awaited => ?_⟩
  · have after := (spells.gap blank).punctuation (c := ':') rfl
    simpa using quoted.append (Token.breaks_cons rfl _) after
  · have named : Builder.step? ⟨objects.frame latest :: outer, expected, none⟩
        (.scalar (.string name)) = some ⟨.member latest name :: outer, .colon, none⟩ := by
      rcases awaited with rfl | rfl <;> rfl
    rw [List.foldlM_cons, named]
    exact builds ⟨.member latest name :: outer, .value, none⟩ (.inl rfl)

theorem writes_joined (container : Container α) (opens : opening.toList = [container.opening])
    (closes : closing.toList = [container.closing])
    (h : ∀ item ∈ items, container.WritesItem (render item).toList item) :
    Writes (opening ++ ",".intercalate (items.map render) ++ closing).toList
      (container.whole items) := by
  have comma : ",".toList = [','] := by decide
  have empty : ∀ c ∈ [], isGap c = true := nofun
  have written := container.writes empty empty empty h
  simpa [opens, closes, comma, String.toList_append, String.toList_intercalate,
    Function.comp_def] using written

theorem isGap_deeper {indent : String} (blank : ∀ c ∈ indent.toList, isGap c = true) :
    ∀ c ∈ (indent ++ "  ").toList, isGap c = true := by
  rw [String.toList_append]
  exact List.forall_mem_append.mpr ⟨blank, List.all_eq_true.mp (by decide)⟩

theorem writes_bracket (container : Container α) (opens : opening.toList = [container.opening])
    (closes : closing.toList = [container.closing]) {indent : String}
    (blank : ∀ c ∈ indent.toList, isGap c = true)
    (h : ∀ item ∈ items, container.WritesItem (render item).toList item) :
    Writes (bracket opening closing indent (items.map render)).toList (container.whole items) := by
  rw [bracket]
  split
  · rename_i empty
    obtain rfl : items = [] := by simpa using empty
    have empty : ∀ c ∈ [], isGap c = true := nofun
    have written := container.writes empty empty empty h
    simpa [opens, closes, String.toList_append, List.intercalate] using written
  · have feed : "\n".toList = ['\n'] := by decide
    have separator : ",\n".toList = [',', '\n'] := by decide
    have lineFeed : ∀ c ∈ ['\n'], isGap c = true := List.forall_mem_singleton.mpr rfl
    have last : ∀ c ∈ '\n' :: indent.toList, isGap c = true := List.forall_mem_cons.mpr ⟨rfl, blank⟩
    have indented : ∀ item ∈ items,
        container.WritesItem ((indent ++ "  ").toList ++ (render item).toList) item :=
      fun item member => (h item member).gap (isGap_deeper blank)
    have written := container.writes lineFeed lineFeed last indented
    simpa [opens, closes, feed, separator, String.toList_append, String.toList_intercalate,
      Function.comp_def] using written

end Containers

theorem compactItems_eq (items : List Json) : compactItems items = items.map compact := by
  induction items with
  | nil => rfl
  | cons item rest ih => rw [compactItems, ih, List.map_cons]

theorem compactMembers_eq (members : List (String × Json)) :
    compactMembers members =
      members.map fun member => quote member.1 ++ ":" ++ compact member.2 := by
  induction members with
  | nil => rfl
  | cons member rest ih => rw [compactMembers, ih, List.map_cons]

theorem prettyItems_eq (indent : String) (items : List Json) :
    prettyItems indent items = items.map (pretty indent) := by
  induction items with
  | nil => rfl
  | cons item rest ih => rw [prettyItems, ih, List.map_cons]

theorem prettyMembers_eq (indent : String) (members : List (String × Json)) :
    prettyMembers indent members =
      members.map fun member => quote member.1 ++ ": " ++ pretty indent member.2 := by
  induction members with
  | nil => rfl
  | cons member rest ih => rw [prettyMembers, ih, List.map_cons]

namespace Legible

variable {json : Json}

theorem writes_compact (h : json.Legible) : Writes json.compact.toList json := by
  induction h with
  | null => exact writes_word (by decide) (by decide) rfl
  | bool value => cases value <;> exact writes_word (by decide) (by decide) rfl
  | integer low high => exact writes_number (JsonNumber.read?_showInt low high)
  | real reads => exact writes_number reads
  | string value => exact writes_string value
  | array each ih =>
    rw [compact, compactItems_eq]
    exact writes_joined arrays rfl rfl fun item member =>
      writesItem_of_writes (ih item member)
  | object each ih =>
    rw [compact, compactMembers_eq]
    refine writes_joined objects rfl rfl fun member held => ?_
    have empty : ∀ c ∈ [], isGap c = true := nofun
    have written := writesItem_member empty member.1 (ih member held)
    simpa [String.toList_append] using written

theorem writes_pretty (h : json.Legible) (indent : String)
    (blank : ∀ c ∈ indent.toList, isGap c = true) : Writes (json.pretty indent).toList json := by
  induction h generalizing indent with
  | null => exact Legible.null.writes_compact
  | bool value => exact (Legible.bool value).writes_compact
  | integer low high => exact (Legible.integer low high).writes_compact
  | real reads => exact (Legible.real reads).writes_compact
  | string value => exact (Legible.string value).writes_compact
  | array each ih =>
    rw [pretty, prettyItems_eq]
    exact writes_bracket arrays rfl rfl blank fun item member =>
      writesItem_of_writes (ih item member _ (isGap_deeper blank))
  | object each ih =>
    rw [pretty, prettyMembers_eq]
    refine writes_bracket objects rfl rfl blank fun member held => ?_
    have space : ": ".toList = [':', ' '] := by decide
    have one : ∀ c ∈ [' '], isGap c = true := List.forall_mem_singleton.mpr rfl
    have written := writesItem_member one member.1 (ih member held _ (isGap_deeper blank))
    simpa [String.toList_append, space] using written

theorem read?_compact (h : json.Legible) : Json.read? json.compact = some json :=
  read?_of_writes h.writes_compact

theorem read?_pretty (h : json.Legible) : Json.read? (json.pretty "") = some json :=
  read?_of_writes (h.writes_pretty "" nofun)

end Legible

end QueryContract.Interchange.Json
