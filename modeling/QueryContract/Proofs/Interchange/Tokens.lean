import QueryContract.Interchange.JsonPrinter
import QueryContract.Interchange.JsonReader
import QueryContract.Proofs.Text.Quoting

/-!
The tokens of JSON text. A text spells its tokens in every context that does not go on with its last
word, so texts can be put side by side where a sign or a gap stands between their words.
-/

namespace QueryContract.Interchange.Token

/-- A character that no number and no name goes on with. -/
def isBreak (c : Char) : Bool := isGap c || c = '"' || (punctuation? c).isSome

def Breaks (rest : List Char) : Prop := ∀ c ∈ rest.head?, isBreak c = true

/-- Before anything that breaks off its last word, the text is these tokens. -/
def Spells (text : List Char) (tokens : List Token) : Prop :=
  ∀ rest, Breaks rest →
    scanFrom? .nothing (text ++ rest) = (scanFrom? .nothing rest).map (tokens ++ ·)

variable {text other rest : List Char} {tokens more : List Token} {token : Token} {c : Char}

theorem breaks_nil : Breaks [] := nofun

theorem breaks_cons (h : isBreak c = true) (rest : List Char) : Breaks (c :: rest) := by
  intro first head
  cases head
  exact h

theorem Breaks.append (h : Breaks text) (h' : Breaks rest) : Breaks (text ++ rest) := by
  cases text with
  | nil => exact h'
  | cons c others => exact breaks_cons (h c rfl) _

theorem scanFrom?_cons {pending next : Pending} (h : step? pending c = some (tokens, next))
    (rest : List Char) :
    scanFrom? pending (c :: rest) = (scanFrom? next rest).map (tokens ++ ·) := by
  cases pending <;> (rw [scanFrom?, h]; exact Option.map_eq_bind.symm)

theorem isBreak_punctuation (h : punctuation? c = some token) : isBreak c = true := by
  rw [isBreak, h, Option.isSome_some, Bool.or_true]

theorem breaks_gap (h : ∀ c ∈ text, isGap c = true) : Breaks text := by
  intro c head
  rw [isBreak, h c (List.mem_of_mem_head? head), Bool.true_or, Bool.true_or]

/-- A character between tokens. -/
theorem scanFrom?_start {next : Pending} (h : start c = (tokens, next)) (rest : List Char) :
    scanFrom? .nothing (c :: rest) = (scanFrom? next rest).map (tokens ++ ·) :=
  scanFrom?_cons (by rw [step?, h]) rest

theorem map_nil_append {tokens? : Option (List Token)} :
    tokens?.map (([] : List Token) ++ ·) = tokens? := Option.map_id'

theorem spells_nil : Spells [] [] := fun _ _ => map_nil_append.symm

theorem Spells.append (h : Spells text tokens) (breaks : Breaks other) (h' : Spells other more) :
    Spells (text ++ other) (tokens ++ more) := by
  intro rest broken
  rw [List.append_assoc, h _ (breaks.append broken), h' rest broken, Option.map_map]
  simp only [Function.comp_def, List.append_assoc]

theorem start_gap (h : isGap c = true) : start c = ([], .nothing) := if_pos h

theorem start_punctuation (h : punctuation? c = some token) : start c = ([token], .nothing) := by
  unfold punctuation? at h
  split at h <;> cases h <;> rfl

theorem start_quote : start '"' = ([], .quoted .start) := rfl

theorem start_solid (h : isBreak c = false) : start c = ([], .word [c]) := by
  simp only [isBreak, Bool.or_eq_false_iff, decide_eq_false_iff_not] at h
  obtain ⟨⟨gap, quote⟩, sign⟩ := h
  have other : punctuation? c = none := by simpa using sign
  simp [start, gap, quote, other]

theorem Spells.gap {gap : List Char} (blank : ∀ c ∈ gap, isGap c = true) (h : Spells text tokens) :
    Spells (gap ++ text) tokens := by
  induction gap with
  | nil => exact h
  | cons c others ih =>
    obtain ⟨first, later⟩ := List.forall_mem_cons.mp blank
    intro rest broken
    rw [List.cons_append, List.cons_append, scanFrom?_start (start_gap first), map_nil_append]
    exact ih later rest broken

theorem Spells.punctuation (sign : punctuation? c = some token) (h : Spells text tokens) :
    Spells (c :: text) (token :: tokens) := by
  intro rest broken
  rw [List.cons_append, scanFrom?_start (start_punctuation sign), h rest broken, Option.map_map]
  rfl

section Words

theorem scanFrom?_word {word : List Char} (latest : List Char)
    (solid : ∀ c ∈ word, isBreak c = false)
    (read : ofWord? (latest.reverse ++ word) = some token) (broken : Breaks rest) :
    scanFrom? (.word latest) (word ++ rest) = (scanFrom? .nothing rest).map ([token] ++ ·) := by
  induction word generalizing latest with
  | nil =>
    rw [List.append_nil] at read
    cases rest with
    | nil =>
      change (ofWord? latest.reverse).map ([·]) = _
      rw [read]
      rfl
    | cons c others =>
      have stop : step? (.word latest) c = some (token :: (start c).1, (start c).2) := by
        have ended : isBreak c = true := broken c rfl
        rw [isBreak] at ended
        simp only [step?, ended, read]
        rfl
      rw [List.nil_append, scanFrom?_cons stop, scanFrom?_start rfl, Option.map_map]
      rfl
  | cons c others ih =>
    obtain ⟨first, later⟩ := List.forall_mem_cons.mp solid
    have goes : step? (.word latest) c = some ([], .word (c :: latest)) := by
      rw [isBreak] at first
      simp only [step?, first]
      rfl
    rw [List.cons_append, scanFrom?_cons goes, map_nil_append]
    exact ih (c :: latest) later (by simpa using read)

theorem spells_word {word : List Char} (solid : ∀ c ∈ word, isBreak c = false)
    (full : word ≠ []) (read : ofWord? word = some token) : Spells word [token] := by
  intro rest broken
  cases word with
  | nil => exact absurd rfl full
  | cons c others =>
    obtain ⟨first, later⟩ := List.forall_mem_cons.mp solid
    rw [List.cons_append, scanFrom?_start (start_solid first), map_nil_append]
    exact scanFrom?_word [c] later read broken

end Words

section Quotes

theorem scanFrom?_quoted {reader next : Text.Quoted.Reader}
    (h : text.foldlM Text.Quoted.Reader.step reader = .ok next) (inside : next.mode ≠ .closed)
    (rest : List Char) :
    scanFrom? (.quoted reader) (text ++ rest) = scanFrom? (.quoted next) rest := by
  induction text generalizing reader with
  | nil =>
    cases h
    rfl
  | cons c others ih =>
    obtain ⟨middle, stepped, later⟩ := Text.Quoted.Reader.exists_of_foldlM_cons h
    -- a reader that were closed here would be closed in the end, too
    have goes : step? (.quoted reader) c = some ([], .quoted middle) := by
      simp only [step?, stepped]
      split
      · rename_i closed
        exact absurd (Text.Quoted.Reader.closed_of_foldlM closed later).1 inside
      · rfl
    rw [List.cons_append, scanFrom?_cons goes, map_nil_append]
    exact ih later

theorem spells_quoted (value : String) :
    Spells (Text.Quoted.write value.toList) [.scalar (.string value)] := by
  intro rest broken
  obtain ⟨next, inside, plain, decoded⟩ :=
    Text.Quoted.Reader.adds_flatMap_encodeChar value.toList Text.Quoted.Reader.start rfl
  have closes : step? (.quoted next) '"' = some ([.scalar (.string value)], .nothing) := by
    have text : next.text = value.toList := decoded
    have closed : next.step '"' = .ok (next.moveTo '"' .closed) := by
      simp [Text.Quoted.Reader.step, plain]
    simp only [step?, closed]
    change some ([scalar (.string (String.ofList next.text))], Pending.nothing) = _
    rw [text, String.ofList_toList]
  have written : Text.Quoted.write value.toList ++ rest =
      '"' :: (value.toList.flatMap Text.Quoted.encodeChar ++ '"' :: rest) := by
    simp [Text.Quoted.write]
  rw [written, scanFrom?_start start_quote, map_nil_append,
    scanFrom?_quoted inside (by rw [plain]; decide), scanFrom?_cons closes]

end Quotes

end QueryContract.Interchange.Token
