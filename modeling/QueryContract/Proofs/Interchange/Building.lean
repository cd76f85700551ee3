import QueryContract.Proofs.Interchange.Numerals
import QueryContract.Proofs.Text.Joining

/-!
Values built from their tokens. A text writes a value if its tokens build it wherever a value is
awaited; arrays and objects are written item by item, with gaps at will between the signs.
-/

namespace QueryContract.Interchange.Json

open Token (Spells isGap)

namespace Builder

def AwaitsValue (builder : Builder) : Prop :=
  builder.expected = .value ∨ builder.expected = .itemOrEnd

variable {builder : Builder}

/-- No value starts as an array or an object ends. -/
theorem step?_eq_openValue? (h : builder.AwaitsValue) {token : Token}
    (starts : builder.close? token = none) : builder.step? token = builder.openValue? token := by
  rcases h with h | h
  · simp only [step?, h]
  · simp only [step?, h, starts, Option.none_or]

end Builder

open Builder (AwaitsValue step? finish?)

/-- The text spells tokens that build the value. -/
def Writes (text : List Char) (value : Json) : Prop :=
  ∃ tokens, Spells text tokens ∧ ∀ builder : Builder, builder.AwaitsValue →
    tokens.foldlM step? builder = finish? builder.frames value

variable {text : List Char} {value : Json}

theorem Writes.gap {gap : List Char} (blank : ∀ c ∈ gap, isGap c = true) (h : Writes text value) :
    Writes (gap ++ text) value := by
  obtain ⟨tokens, spells, builds⟩ := h
  exact ⟨tokens, spells.gap blank, builds⟩

theorem Writes.trail {gap : List Char} (blank : ∀ c ∈ gap, isGap c = true) (h : Writes text value) :
    Writes (text ++ gap) value := by
  obtain ⟨tokens, spells, builds⟩ := h
  have blanks : Spells gap [] := by simpa using Token.spells_nil.gap blank
  have whole := spells.append (Token.breaks_gap blank) blanks
  rw [List.append_nil] at whole
  exact ⟨tokens, whole, builds⟩

theorem writes_scalar (h : Spells text [.scalar value]) : Writes text value := by
  refine ⟨[.scalar value], h, fun builder awaits => ?_⟩
  rw [List.foldlM_cons, Builder.step?_eq_openValue? awaits rfl]
  exact bind_pure _

theorem read?_of_writes {text : String} (h : Writes text.toList value) :
    read? text = some value := by
  obtain ⟨tokens, spells, builds⟩ := h
  have scanned : Token.scan? text.toList = some tokens := by
    have whole := spells [] Token.breaks_nil
    rw [List.append_nil] at whole
    rw [Token.scan?, whole]
    exact congrArg some (List.append_nil tokens)
  have built := builds .start (.inl rfl)
  rw [read?, scanned]
  change (tokens.foldlM step? .start).bind Builder.result = _
  rw [built]
  rfl

/-- Arrays and objects, with the items that they are made of. -/
structure Container (α : Type) where
  opening : Char
  closing : Char
  openToken : Token
  closeToken : Token
  frame : List α → Frame
  whole : List α → Json
  /-- What is awaited after the opening sign, and what after a comma. -/
  first : Expected
  later : Expected
  opening_sign : Token.punctuation? opening = some openToken
  closing_sign : Token.punctuation? closing = some closeToken
  opens : ∀ builder : Builder, builder.AwaitsValue →
    builder.step? openToken = some ⟨frame [] :: builder.frames, first, none⟩
  closes : ∀ latest outer expected, expected = first ∨ expected = .commaOrEnd →
    step? ⟨frame latest :: outer, expected, none⟩ closeToken = finish? outer (whole latest.reverse)
  goes_on : ∀ latest outer, step? ⟨frame latest :: outer, .commaOrEnd, none⟩ .comma =
    some ⟨frame latest :: outer, later, none⟩

def arrays : Container Json where
  opening := '['
  closing := ']'
  openToken := .openArray
  closeToken := .closeArray
  frame := .array
  whole := .array
  first := .itemOrEnd
  later := .value
  opening_sign := rfl
  closing_sign := rfl
  opens _ awaits := Builder.step?_eq_openValue? awaits rfl
  closes latest outer expected awaited := by
    rcases awaited with rfl | rfl <;> exact Option.or_none
  goes_on _ _ := rfl

def objects : Container (String × Json) where
  opening := '{'
  closing := '}'
  openToken := .openObject
  closeToken := .closeObject
  frame := .object
  whole := .object
  first := .nameOrEnd
  later := .name
  opening_sign := rfl
  closing_sign := rfl
  opens _ awaits := Builder.step?_eq_openValue? awaits rfl
  closes latest outer expected awaited := by
    rcases awaited with rfl | rfl <;> exact Option.or_none
  goes_on _ _ := rfl

namespace Container

/-- The text spells tokens that put the item into the container. -/
def WritesItem {α : Type} (container : Container α) (text : List Char) (item : α) : Prop :=
  ∃ tokens, Spells text tokens ∧ ∀ latest outer expected,
    expected = container.first ∨ expected = container.later →
      tokens.foldlM step? ⟨container.frame latest :: outer, expected, none⟩ =
        some ⟨container.frame (item :: latest) :: outer, .commaOrEnd, none⟩

variable {α : Type} {container : Container α} {items : List α} {write : α → List Char}
  {gap trail : List Char}

theorem breaks_later (container : Container α) (blank : ∀ c ∈ trail, isGap c = true) :
    Token.Breaks (items.flatMap (fun item => ',' :: gap ++ write item) ++
      (trail ++ [container.closing])) := by
  have comma : Token.Breaks (items.flatMap fun item => ',' :: gap ++ write item) := by
    cases items with
    | nil => exact Token.breaks_nil
    | cons item rest => exact Token.breaks_cons rfl _
  exact comma.append ((Token.breaks_gap blank).append
    (Token.breaks_cons (Token.isBreak_punctuation container.closing_sign) []))

/-- The rest of a container after one of its items. -/
theorem writes_later (blank : ∀ c ∈ gap, isGap c = true) (blank' : ∀ c ∈ trail, isGap c = true)
    (h : ∀ item ∈ items, container.WritesItem (write item) item) :
    ∃ tokens, Spells (items.flatMap (fun item => ',' :: gap ++ write item) ++
        (trail ++ [container.closing])) tokens ∧
      ∀ latest outer,
        tokens.foldlM step? ⟨container.frame latest :: outer, .commaOrEnd, none⟩ =
          finish? outer (container.whole (latest.reverse ++ items)) := by
  induction items with
  | nil =>
    refine ⟨[container.closeToken], ?_, fun latest outer => ?_⟩
    · rw [List.flatMap_nil, List.nil_append]
      exact (Token.spells_nil.punctuation container.closing_sign).gap blank'
    · rw [List.foldlM_cons, container.closes latest outer _ (.inr rfl), List.append_nil]
      exact bind_pure _
  | cons item rest ih =>
    obtain ⟨⟨tokens, spells, builds⟩, others⟩ := List.forall_mem_cons.mp h
    obtain ⟨further, spells', builds'⟩ := ih others
    refine ⟨.comma :: (tokens ++ further), ?_, fun latest outer => ?_⟩
    · have whole := (spells.append (container.breaks_later blank') spells').gap blank
      simpa using whole.punctuation (c := ',') rfl
    · rw [List.foldlM_cons, container.goes_on]
      change (tokens ++ further).foldlM step? _ = _
      rw [List.foldlM_append, builds latest outer _ (.inr rfl)]
      change further.foldlM step? _ = _
      rw [builds', List.reverse_cons, List.append_assoc]
      rfl

/-- An array or an object is written if each of its items is. -/
theorem writes (container : Container α) {lead : List Char} (blank : ∀ c ∈ lead, isGap c = true)
    (blank' : ∀ c ∈ gap, isGap c = true) (blank'' : ∀ c ∈ trail, isGap c = true)
    (h : ∀ item ∈ items, container.WritesItem (write item) item) :
    Writes (container.opening :: lead ++ (',' :: gap).intercalate (items.map write) ++
      (trail ++ [container.closing])) (container.whole items) := by
  cases items with
  | nil =>
    have closed := Token.spells_nil.punctuation container.closing_sign
    refine ⟨[container.openToken, container.closeToken], ?_, fun builder awaits => ?_⟩
    · simpa using ((closed.gap blank'').gap blank).punctuation container.opening_sign
    · rw [List.foldlM_cons, container.opens builder awaits]
      change [container.closeToken].foldlM step? _ = _
      rw [List.foldlM_cons, container.closes _ _ _ (.inl rfl)]
      exact bind_pure _
  | cons item rest =>
    obtain ⟨⟨tokens, spells, builds⟩, others⟩ := List.forall_mem_cons.mp h
    obtain ⟨further, spells', builds'⟩ := writes_later blank' blank'' others
    refine ⟨container.openToken :: (tokens ++ further), ?_, fun builder awaits => ?_⟩
    · have inside := (spells.append (container.breaks_later blank'') spells').gap blank
      have text : (',' :: gap).intercalate ((item :: rest).map write) =
          write item ++ rest.flatMap fun item => ',' :: gap ++ write item := by
        rw [List.map_cons, Text.intercalate_cons, List.flatMap_map]
      rw [text]
      simpa using inside.punctuation container.opening_sign
    · rw [List.foldlM_cons, container.opens builder awaits]
      change (tokens ++ further).foldlM step? _ = _
      rw [List.foldlM_append, builds _ _ _ (.inl rfl)]
      exact builds' [item] builder.frames

end Container

end QueryContract.Interchange.Json
