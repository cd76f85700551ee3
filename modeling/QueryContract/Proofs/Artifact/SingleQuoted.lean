import Mathlib.Data.List.Basic
import QueryContract.Artifact.Literal

/-!
Single-quoted literals of the generated code: their grammar, a reader for it, and that the literal
of a text reads as this text. A backslash takes a quote or another backslash after it for itself;
before everything else it stands for itself.
-/

namespace QueryContract.Literal

/-- The value goes on with a character. -/
def startWith (c : Char) (read : Option (List Char × List Char)) : Option (List Char × List Char) :=
  read.map fun (value, rest) => (c :: value, rest)

/-- The value up to the quote that ends it, and the text after it. The flag tells that a backslash
    stands right before. -/
def readSingleBody : Bool → List Char → Option (List Char × List Char)
  | _, [] => none
  | true, c :: rest =>
    if c = '\\' ∨ c = '\'' then startWith c (readSingleBody false rest)
    else startWith '\\' (startWith c (readSingleBody false rest))
  | false, c :: rest =>
    if c = '\'' then some ([], rest)
    else if c = '\\' then readSingleBody true rest
    else startWith c (readSingleBody false rest)

/-- The value of the single-quoted literal at the start of a text, and the text after it. -/
def readSingleQuoted : List Char → Option (List Char × List Char)
  | '\'' :: rest => readSingleBody false rest
  | _ => none

theorem readSingleBody_escapeSingle (c : Char) (rest : List Char) :
    readSingleBody false (escapeSingle c ++ rest) = startWith c (readSingleBody false rest) := by
  rw [escapeSingle]
  split
  · rename_i special
    have backslash : '\\' ≠ '\'' := by decide
    rw [List.cons_append, List.singleton_append, readSingleBody, if_neg backslash, if_pos rfl,
      readSingleBody, if_pos special]
  · rename_i plain
    rw [not_or] at plain
    rw [List.singleton_append, readSingleBody, if_neg plain.2, if_neg plain.1]

theorem readSingleBody_escaped (text rest : List Char) :
    readSingleBody false (text.flatMap escapeSingle ++ '\'' :: rest) = some (text, rest) := by
  induction text with
  | nil => rfl
  | cons c text ih =>
    rw [List.flatMap_cons, List.append_assoc, readSingleBody_escapeSingle, ih]
    rfl

/-- The literal of a text reads as this text, whatever stands behind it. -/
theorem readSingleQuoted_append (text : String) (rest : List Char) :
    readSingleQuoted ((singleQuoted text).toList ++ rest) = some (text.toList, rest) := by
  have parts : (singleQuoted text).toList ++ rest =
      '\'' :: (text.toList.flatMap escapeSingle ++ '\'' :: rest) := by
    simp [singleQuoted]
  rw [parts]
  exact readSingleBody_escaped text.toList rest

theorem readSingleQuoted_singleQuoted (text : String) :
    readSingleQuoted (singleQuoted text).toList = some (text.toList, []) := by
  have whole := readSingleQuoted_append text []
  rwa [List.append_nil] at whole

/-- What stands between the quotes, and its value. A backslash stands for itself only where neither
    a quote nor another backslash follows. -/
inductive SingleBody : List Char → List Char → Prop
  | nil : SingleBody [] []
  | plain {c : Char} {rest value : List Char} (quote : c ≠ '\'') (backslash : c ≠ '\\')
      (others : SingleBody rest value) : SingleBody (c :: rest) (c :: value)
  | escaped {c : Char} {rest value : List Char} (special : c = '\\' ∨ c = '\'')
      (others : SingleBody rest value) : SingleBody ('\\' :: c :: rest) (c :: value)
  | lone {c : Char} {rest value : List Char} (quote : c ≠ '\'') (backslash : c ≠ '\\')
      (others : SingleBody rest value) : SingleBody ('\\' :: c :: rest) ('\\' :: c :: value)

theorem startWith_eq_some_iff {c : Char} {read : Option (List Char × List Char)}
    {value rest : List Char} : startWith c read = some (value, rest) ↔
      ∃ others, read = some (others, rest) ∧ value = c :: others := by
  rw [startWith, Option.map_eq_some_iff]
  constructor
  · rintro ⟨⟨others, after⟩, found, same⟩
    cases same
    exact ⟨others, found, rfl⟩
  · rintro ⟨others, found, rfl⟩
    exact ⟨(others, rest), found, rfl⟩

theorem readSingleBody_of_body {body value : List Char} (h : SingleBody body value)
    (rest : List Char) : readSingleBody false (body ++ '\'' :: rest) = some (value, rest) := by
  have apart : '\\' ≠ '\'' := by decide
  induction h with
  | nil => rfl
  | plain quote backslash _ ih =>
    rw [List.cons_append, readSingleBody, if_neg quote, if_neg backslash, ih]
    rfl
  | escaped special _ ih =>
    rw [List.cons_append, List.cons_append, readSingleBody, if_neg apart, if_pos rfl,
      readSingleBody, if_pos special, ih]
    rfl
  | lone quote backslash _ ih =>
    rw [List.cons_append, List.cons_append, readSingleBody, if_neg apart, if_pos rfl,
      readSingleBody, if_neg (not_or.mpr ⟨backslash, quote⟩), ih]
    rfl

/-- What is read is a body and the quote behind it. A text that begins inside an escape is continued
    by what the backslash takes. -/
theorem body_of_readSingleBody {text value rest : List Char} :
    ∀ {escaped : Bool}, readSingleBody escaped text = some (value, rest) →
      ∃ body, text = body ++ '\'' :: rest ∧
        SingleBody (if escaped then '\\' :: body else body) value := by
  induction text generalizing value with
  | nil =>
    intro escaped read
    cases escaped <;> cases read
  | cons c text ih =>
    rintro (_ | _) read
    · rw [readSingleBody] at read
      split at read
      · rename_i quote
        cases read
        exact ⟨[], by rw [quote]; rfl, .nil⟩
      rename_i quote
      split at read
      · rename_i backslash
        obtain ⟨body, rfl, inside⟩ := ih read
        exact ⟨c :: body, rfl, backslash ▸ inside⟩
      · rename_i backslash
        obtain ⟨others, later, rfl⟩ := startWith_eq_some_iff.mp read
        obtain ⟨body, rfl, inside⟩ := ih later
        exact ⟨c :: body, rfl, .plain quote backslash inside⟩
    · rw [readSingleBody] at read
      split at read
      · rename_i special
        obtain ⟨others, later, rfl⟩ := startWith_eq_some_iff.mp read
        obtain ⟨body, rfl, inside⟩ := ih later
        exact ⟨c :: body, rfl, .escaped special inside⟩
      · rename_i ordinary
        rw [not_or] at ordinary
        obtain ⟨more, after, rfl⟩ := startWith_eq_some_iff.mp read
        obtain ⟨others, later, rfl⟩ := startWith_eq_some_iff.mp after
        obtain ⟨body, rfl, inside⟩ := ih later
        exact ⟨c :: body, rfl, .lone ordinary.2 ordinary.1 inside⟩

/-- The reader accepts the literals of the grammar, with their values and whatever stands behind
    them. -/
theorem readSingleQuoted_eq_some_iff {raw value rest : List Char} :
    readSingleQuoted raw = some (value, rest) ↔
      ∃ body, raw = '\'' :: (body ++ '\'' :: rest) ∧ SingleBody body value := by
  constructor
  · intro read
    rw [readSingleQuoted.eq_def] at read
    split at read
    · obtain ⟨body, rfl, inside⟩ := body_of_readSingleBody read
      exact ⟨body, rfl, inside⟩
    · cases read
  · rintro ⟨body, rfl, inside⟩
    exact readSingleBody_of_body inside rest

/-- Every occurrence of a character replaced by a text. -/
def replaceAll (c : Char) (replacement text : List Char) : List Char :=
  text.flatMap fun d => if d = c then replacement else [d]

/-- The backslashes are doubled before the quotes get theirs, so none of those is doubled. -/
theorem flatMap_escapeSingle (text : List Char) : text.flatMap escapeSingle =
    replaceAll '\'' ['\\', '\''] (replaceAll '\\' ['\\', '\\'] text) := by
  rw [replaceAll, replaceAll, List.flatMap_assoc]
  refine List.flatMap_congr fun c _ => ?_
  rw [escapeSingle]
  by_cases backslash : c = '\\'
  · subst backslash
    rfl
  · by_cases quote : c = '\''
    · subst quote
      rfl
    · simp [backslash, quote]

/-- The literal of a text is the text with its backslashes and then its quotes escaped, between two
    quotes. Read as a literal, with whatever stands behind it, it ends with its last character and
    has the value of the text, so different texts have different literals. -/
theorem single_quoting_reads_back :
    (∀ text : String, (singleQuoted text).toList =
      '\'' :: (replaceAll '\'' ['\\', '\'']
        (replaceAll '\\' ['\\', '\\'] text.toList) ++ ['\''])) ∧
    (∀ raw value rest, readSingleQuoted raw = some (value, rest) ↔
      ∃ body, raw = '\'' :: (body ++ '\'' :: rest) ∧ SingleBody body value) ∧
    (∀ (text : String) (rest : List Char),
      readSingleQuoted ((singleQuoted text).toList ++ rest) = some (text.toList, rest)) ∧
    Function.Injective singleQuoted := by
  refine ⟨fun text => ?_, fun _ _ _ => readSingleQuoted_eq_some_iff, readSingleQuoted_append, ?_⟩
  · rw [← flatMap_escapeSingle, singleQuoted, String.toList_ofList]
    rfl
  · intro left right same
    have read := readSingleQuoted_singleQuoted left
    rw [same, readSingleQuoted_singleQuoted, Option.some.injEq, Prod.mk.injEq] at read
    exact (String.toList_inj.mp read.1).symm

/-- A backslash before a quote, and one at the end. -/
example : singleQuoted "\\'a\\" = "'\\\\\\'a\\\\'" := by decide

end QueryContract.Literal
