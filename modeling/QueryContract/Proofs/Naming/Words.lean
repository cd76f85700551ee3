import Mathlib.Data.List.Chain
import QueryContract.Proofs.Naming.Spelling

/-!
The words of a name are its runs of letters and digits, in upper case. An identifier shows the words
and whether anything else stands at either end. Names that agree in this have the same identifier,
and no others have.
-/

namespace QueryContract

namespace Text

def isGap (c : Char) : Bool := !c.isAlphanum

/-- The longest runs of letters and digits. -/
def alphanumRuns (text : List Char) : List (List Char) :=
  (text.splitOnP isGap).filter fun run => !run.isEmpty

end Text

open Text (alphanumRuns isGap uppercase)

namespace Naming

def wordsOf (name : String) : List (List Char) := (alphanumRuns name.toList).map uppercase

def startsWithLetter (name : String) : Bool := name.toList.head?.any Char.isAlpha

def endsInWord (name : String) : Bool := name.toList.getLast?.any Char.isAlphanum

/-! Pieces between gaps. -/

/-- The pieces without the empty ones, but for an empty last piece. -/
def solidPieces : List (List Char) → List (List Char)
  | [] => []
  | [last] => [last]
  | piece :: next :: rest =>
    if piece.isEmpty then solidPieces (next :: rest) else piece :: solidPieces (next :: rest)

theorem solidPieces_cons_of_ne_nil {piece : List Char} (h : piece ≠ []) (rest : List (List Char)) :
    solidPieces (piece :: rest) = piece :: solidPieces rest := by
  cases rest with
  | nil => rfl
  | cons next rest => rw [solidPieces, if_neg (by simpa using h)]

theorem solidPieces_ne_nil (piece : List Char) (rest : List (List Char)) :
    solidPieces (piece :: rest) ≠ [] := by
  induction rest generalizing piece with
  | nil => exact List.cons_ne_nil _ _
  | cons next rest ih =>
    rw [solidPieces]
    split
    · exact ih next
    · exact List.cons_ne_nil _ _

theorem solidPieces_eq (pieces : List (List Char)) :
    solidPieces pieces = (pieces.filter fun piece => !piece.isEmpty) ++
      if pieces.getLast? = some [] then [[]] else [] := by
  induction pieces with
  | nil => rfl
  | cons piece rest ih =>
    cases rest with
    | nil => cases piece <;> rfl
    | cons next rest =>
      rw [List.getLast?_cons_cons, List.filter_cons]
      cases piece with
      | nil => exact ih
      | cons c others =>
        rw [solidPieces_cons_of_ne_nil (List.cons_ne_nil c others), ih]
        rfl

/-- One underscore stands between two pieces, and the gap before an empty piece has none. -/
theorem upperWords_eq {text first : List Char} {rest : List (List Char)}
    (split : text.splitOnP isGap = first :: rest) :
    upperWords false text = ['_'].intercalate ((first :: solidPieces rest).map uppercase) ∧
      upperWords true text = ['_'].intercalate ((solidPieces (first :: rest)).map uppercase) := by
  induction text generalizing first rest with
  | nil =>
    cases split
    exact ⟨rfl, rfl⟩
  | cons c text ih =>
    cases pieces : text.splitOnP isGap with
    | nil => exact absurd pieces (List.splitOnP_ne_nil _ _)
    | cons head tail =>
      obtain ⟨plain, gap⟩ := ih pieces
      rw [List.splitOnP_cons_eq_if_modifyHead, pieces] at split
      cases word : c.isAlphanum with
      | false =>
        rw [if_pos (by rw [isGap, word]; rfl)] at split
        cases split
        have some := solidPieces_ne_nil head tail
        constructor
        · rw [upperWords, word, if_neg Bool.false_ne_true, if_neg Bool.false_ne_true, gap,
            List.map_cons, List.intercalate_cons_of_ne_nil (by simpa using some)]
          rfl
        · rw [upperWords, word, if_neg Bool.false_ne_true, if_pos rfl, gap]
          rfl
      | true =>
        rw [if_neg (by rw [isGap, word]; decide)] at split
        cases split
        have longer : c.toUpper :: ['_'].intercalate ((head :: solidPieces rest).map uppercase) =
            ['_'].intercalate (((c :: head) :: solidPieces rest).map uppercase) :=
          List.intercalate_cons_cons_left.symm
        constructor
        · rw [upperWords, word, if_pos rfl, plain, longer]
        · rw [upperWords, word, if_pos rfl, plain, longer,
            solidPieces_cons_of_ne_nil (List.cons_ne_nil c head)]

theorem getLast?_splitOnP_isGap (text : List Char) :
    (text.splitOnP isGap).getLast? = some [] ↔ text.getLast?.any Char.isAlphanum = false := by
  induction text with
  | nil => simp
  | cons c text ih =>
    cases pieces : text.splitOnP isGap with
    | nil => exact absurd pieces (List.splitOnP_ne_nil _ _)
    | cons head tail =>
      rw [pieces] at ih
      rw [List.splitOnP_cons_eq_if_modifyHead, pieces]
      cases text with
      | nil =>
        cases pieces
        cases word : c.isAlphanum <;> simp [isGap, word]
      | cons second others =>
        rw [List.getLast?_cons_cons, ← ih]
        cases word : c.isAlphanum with
        | false => simp [isGap, word, List.getLast?_cons]
        | true =>
          have first : head = [] → tail ≠ [] := by
            rintro rfl rfl
            rw [List.splitOnP_cons_eq_if_modifyHead] at pieces
            split at pieces
            · exact List.splitOnP_ne_nil _ _ (List.cons.inj pieces).2
            · cases rest : others.splitOnP isGap <;> rw [rest] at pieces <;> cases pieces
          cases tail with
          | nil => simpa [isGap, word] using first
          | cons next rest => simp [isGap, word]

/-! Identifiers. -/

/-- The words, with an empty one at each end where no letter, or no letter and no digit, stands. -/
def shownWords (startsWithLetter endsInWord : Bool) (words : List (List Char)) : List (List Char) :=
  (if startsWithLetter then [] else [[]]) ++ (words ++ if endsInWord then [] else [[]])

theorem toList_identifierOf {name : String} (some : name ≠ "") :
    (identifierOf name).toList =
      (if startsWithLetter name then [] else ['_']) ++ upperWords true name.toList := by
  cases text : name.toList with
  | nil => exact absurd (String.toList_eq_nil_iff.mp text) some
  | cons c rest =>
    have digits : c.isDigit = true → c.isAlpha = false := fun digit =>
      Text.alphanum_cases (p := fun c => c.isDigit = true → c.isAlpha = false) (by decide)
        (Text.isAlphanum_of_isDigit digit) digit
    rw [identifierOf, startsWithLetter, startsWithDigit, text, List.head?_cons, Option.any_some,
      Option.any_some, String.toList_ofList, upperWords, upperWords]
    cases word : c.isAlphanum with
    | false =>
      obtain ⟨letter, digit⟩ := Bool.or_eq_false_iff.mp word
      simp [letter, digit]
    | true =>
      cases digit : c.isDigit with
      | true => simp [digits digit]
      | false =>
        rw [Char.isAlphanum, digit, Bool.or_false] at word
        simp [word]

theorem map_uppercase_solidPieces (name : String) :
    (solidPieces (name.toList.splitOnP isGap)).map uppercase =
      wordsOf name ++ if endsInWord name then [] else [[]] := by
  rw [solidPieces_eq, List.map_append, wordsOf, alphanumRuns]
  congr 1
  cases ends : endsInWord name with
  | true =>
    have last : (name.toList.splitOnP isGap).getLast? ≠ some [] := fun gap => by
      rw [getLast?_splitOnP_isGap] at gap
      exact Bool.false_ne_true (gap.symm.trans ends)
    rw [if_neg last]
    rfl
  | false =>
    rw [if_pos ((getLast?_splitOnP_isGap _).mpr ends)]
    rfl

/-- The identifier of a name is its words with an underscore between them and at each open end. -/
theorem identifierOf_eq_intercalate {name : String} (some : name ≠ "") :
    (identifierOf name).toList =
      ['_'].intercalate (shownWords (startsWithLetter name) (endsInWord name) (wordsOf name)) := by
  rw [toList_identifierOf some, shownWords, ← map_uppercase_solidPieces]
  cases pieces : name.toList.splitOnP isGap with
  | nil => exact absurd pieces (List.splitOnP_ne_nil _ _)
  | cons first rest =>
    rw [(upperWords_eq pieces).2]
    cases startsWithLetter name with
    | true => rfl
    | false =>
      have some := solidPieces_ne_nil first rest
      rw [if_neg Bool.false_ne_true, if_neg Bool.false_ne_true, List.singleton_append,
        List.singleton_append, List.intercalate_cons_of_ne_nil (by simpa using some)]
      rfl

theorem wordsOf_spelled {name : String} {word : List Char} (h : word ∈ wordsOf name) :
    word ≠ [] ∧ ∀ c ∈ word, c.isAlphanum = true ∧ c.toUpper = c := by
  obtain ⟨run, found, rfl⟩ := List.mem_map.mp h
  obtain ⟨piece, some⟩ := List.mem_filter.mp found
  refine ⟨by simpa [uppercase] using some, fun c member => ?_⟩
  obtain ⟨d, inRun, rfl⟩ := List.mem_map.mp member
  have word : d.isAlphanum = true := by
    simpa [isGap] using (Text.mem_of_mem_splitOnP piece inRun).2
  exact ⟨Text.isAlphanum_toUpper word,
    Text.alphanum_cases (p := fun c => c.toUpper.toUpper = c.toUpper) (by decide) word⟩

theorem unbroken_shownWords {first last : Bool} {name : String} {word : List Char}
    (h : word ∈ shownWords first last (wordsOf name)) : ∀ c ∈ word, isGap c = false := by
  intro c member
  rcases List.mem_append.mp h with start | h
  · split at start <;> simp_all
  rcases List.mem_append.mp h with inside | ending
  · rw [isGap, ((wordsOf_spelled inside).2 c member).1]
    rfl
  · split at ending <;> simp_all

theorem filter_shownWords (first last : Bool) (name : String) :
    (shownWords first last (wordsOf name)).filter (fun word => !word.isEmpty) = wordsOf name := by
  have kept : (wordsOf name).filter (fun word => !word.isEmpty) = wordsOf name :=
    List.filter_eq_self.mpr fun word member => by simpa using (wordsOf_spelled member).1
  rw [shownWords, List.filter_append, List.filter_append, kept]
  cases first <;> cases last <;> simp

/-! What an identifier shows of its name. -/

theorem isChain_upperWords (inGap : Bool) (text : List Char) :
    (upperWords inGap text).IsChain (fun c d => ¬(c = '_' ∧ d = '_')) ∧
      (inGap = true → (upperWords inGap text).head? ≠ some '_') := by
  induction text generalizing inGap with
  | nil => exact ⟨.nil, fun _ => (Option.some_ne_none '_').symm⟩
  | cons c text ih =>
    rw [upperWords]
    cases word : c.isAlphanum with
    | true =>
      have apart : c.toUpper ≠ '_' :=
        Text.alphanum_cases (p := fun c => c.toUpper ≠ '_') (by decide) word
      rw [if_pos rfl]
      refine ⟨List.isChain_cons.mpr ⟨fun d _ both => apart both.1, (ih false).1⟩, fun _ => ?_⟩
      simpa using apart
    | false =>
      obtain ⟨chain, start⟩ := ih true
      rw [if_neg Bool.false_ne_true]
      cases inGap with
      | true => exact ⟨chain, start⟩
      | false =>
        refine ⟨List.isChain_cons.mpr ⟨fun d head both => ?_, chain⟩, Bool.noConfusion⟩
        exact start rfl (both.2 ▸ Option.mem_def.mp head)

theorem upperWords_false_ne_nil (c : Char) (text : List Char) :
    upperWords false (c :: text) ≠ [] := by
  rw [upperWords]
  split
  · exact List.cons_ne_nil _ _
  · exact List.cons_ne_nil _ _

theorem getLast?_upperWords (inGap : Bool) (text : List Char) :
    (upperWords inGap text).getLast?.any Char.isAlphanum =
      text.getLast?.any Char.isAlphanum := by
  induction text generalizing inGap with
  | nil => rfl
  | cons c text ih =>
    have gap : '_'.isAlphanum = false := by decide
    have last : (c :: text).getLast?.any Char.isAlphanum =
        if text = [] then c.isAlphanum else text.getLast?.any Char.isAlphanum := by
      cases text <;> simp
    rw [last, upperWords]
    cases word : c.isAlphanum with
    | true =>
      rw [if_pos rfl]
      cases text with
      | nil => simp [upperWords, Text.isAlphanum_toUpper word]
      | cons d rest =>
        rw [if_neg (List.cons_ne_nil d rest), ← ih false]
        cases spelled : upperWords false (d :: rest) with
        | nil => exact absurd spelled (upperWords_false_ne_nil d rest)
        | cons e others => rw [List.getLast?_cons_cons]
    | false =>
      have later : (upperWords true text).getLast?.any Char.isAlphanum =
          if text = [] then false else text.getLast?.any Char.isAlphanum := by
        rw [ih true]
        cases text <;> rfl
      rw [if_neg Bool.false_ne_true, ← later]
      cases inGap with
      | true => rfl
      | false => cases upperWords true text <;> simp [gap]

theorem startsWithLetter_identifierOf (name : String) :
    startsWithLetter (identifierOf name) = startsWithLetter name := by
  by_cases some : name = ""
  · rw [some]
    rfl
  · rw [startsWithLetter, toList_identifierOf some]
    cases letter : startsWithLetter name with
    | false => rfl
    | true =>
      rw [startsWithLetter] at letter
      cases text : name.toList with
      | nil =>
        rw [text] at letter
        cases letter
      | cons c rest =>
        rw [text] at letter
        have word := Text.isAlphanum_of_isAlpha letter
        rw [upperWords, word]
        exact Text.alphanum_cases (p := fun c => c.isAlpha = true → c.toUpper.isAlpha = true)
          (by decide) word letter

theorem endsInWord_identifierOf (name : String) :
    endsInWord (identifierOf name) = endsInWord name := by
  by_cases some : name = ""
  · rw [some]
    rfl
  · have gap : '_'.isAlphanum = false := by decide
    rw [endsInWord, endsInWord, ← getLast?_upperWords true name.toList, toList_identifierOf some,
      List.getLast?_append]
    cases (upperWords true name.toList).getLast? <;> cases startsWithLetter name <;> simp [gap]

theorem wordsOf_identifierOf (name : String) : wordsOf (identifierOf name) = wordsOf name := by
  by_cases some : name = ""
  · rw [some]
    rfl
  · have shown : shownWords (startsWithLetter name) (endsInWord name) (wordsOf name) ≠ [] := by
      intro none
      have spelled := isIdentifier_identifierOf some
      rw [identifierOf_eq_intercalate some, none] at spelled
      cases spelled
    have upper : (wordsOf name).map uppercase = wordsOf name := by
      refine (List.map_congr_left fun word member => ?_).trans (List.map_id _)
      exact (List.map_congr_left fun c inside => ((wordsOf_spelled member).2 c inside).2).trans
        (List.map_id _)
    rw [wordsOf, alphanumRuns, identifierOf_eq_intercalate some,
      Text.splitOnP_intercalate (by decide) shown fun word => unbroken_shownWords,
      filter_shownWords, upper]

theorem identifierOf_eq_iff {left right : String} (hl : left ≠ "") (hr : right ≠ "") :
    identifierOf left = identifierOf right ↔
      wordsOf left = wordsOf right ∧ startsWithLetter left = startsWithLetter right ∧
        endsInWord left = endsInWord right := by
  constructor
  · intro same
    rw [← wordsOf_identifierOf left, ← startsWithLetter_identifierOf left,
      ← endsInWord_identifierOf left, same, wordsOf_identifierOf, startsWithLetter_identifierOf,
      endsInWord_identifierOf]
    exact ⟨rfl, rfl, rfl⟩
  · rintro ⟨words, starts, ends⟩
    rw [← String.toList_inj, identifierOf_eq_intercalate hl, identifierOf_eq_intercalate hr, words,
      starts, ends]

theorem identifierOf_identifierOf (name : String) :
    identifierOf (identifierOf name) = identifierOf name := by
  by_cases some : name = ""
  · rw [some]
    rfl
  · have shown : identifierOf name ≠ "" := fun none => by
      have spelled := isIdentifier_identifierOf some
      rw [none] at spelled
      cases spelled
    exact (identifierOf_eq_iff shown some).mpr ⟨wordsOf_identifierOf name,
      startsWithLetter_identifierOf name, endsInWord_identifierOf name⟩

theorem startsWithDigit_identifierOf (name : String) :
    startsWithDigit (identifierOf name).toList = false := by
  by_cases some : name = ""
  · rw [some]
    rfl
  · have spelled := isIdentifier_identifierOf some
    cases text : (identifierOf name).toList with
    | nil => rfl
    | cons c rest =>
      rw [text, isIdentifier, Bool.and_eq_true, Bool.or_eq_true, beq_iff_eq] at spelled
      rcases spelled.1 with upper | underscore
      · exact Text.alphanum_cases (p := fun c => c.isUpper = true → c.isDigit = false) (by decide)
          (Text.isAlphanum_of_isUpper upper) upper
      · rw [underscore]
        rfl

theorem isChain_identifierOf (name : String) :
    (identifierOf name).toList.IsChain fun c d => ¬(c = '_' ∧ d = '_') := by
  by_cases some : name = ""
  · rw [some]
    exact .nil
  · obtain ⟨chain, start⟩ := isChain_upperWords true name.toList
    rw [toList_identifierOf some]
    cases startsWithLetter name with
    | true => exact chain
    | false =>
      refine List.isChain_cons.mpr ⟨fun d head both => start rfl ?_, chain⟩
      exact both.2 ▸ Option.mem_def.mp head

/-- An identifier consists of capitals, digits and single underscores, starts with no digit and is
    its own identifier. Two names have one identifier exactly if they have the same words, both or
    neither start with a letter, and both or neither end within a word. -/
theorem identifiers_show_words :
    (∀ name, (∀ c ∈ (identifierOf name).toList, isIdentifierPart c = true) ∧
      ((identifierOf name).toList.IsChain fun c d => ¬(c = '_' ∧ d = '_')) ∧
      startsWithDigit (identifierOf name).toList = false ∧
      identifierOf (identifierOf name) = identifierOf name) ∧
    ∀ left right, left ≠ "" → right ≠ "" →
      (identifierOf left = identifierOf right ↔
        wordsOf left = wordsOf right ∧ startsWithLetter left = startsWithLetter right ∧
          endsInWord left = endsInWord right) :=
  ⟨fun name => ⟨fun _ => isIdentifierPart_of_mem_identifierOf, isChain_identifierOf name,
    startsWithDigit_identifierOf name, identifierOf_identifierOf name⟩,
    fun _ _ => identifierOf_eq_iff⟩

theorem identifiers_of_openEnds :
    '_' ∈ (identifierOf "1st é").toList ∧ isIdentifierPart '_' = true ∧
      "1st é" ≠ "" ∧ "-1ST_" ≠ "" ∧ "1st" ≠ "" ∧
      identifierOf "1st é" = identifierOf "-1ST_" ∧ identifierOf "1st é" ≠ identifierOf "1st" := by
  have member : '_' ∈ (identifierOf "1st é").toList := by decide +kernel
  have first : "1st é" ≠ "" := by decide
  have second : "-1ST_" ≠ "" := by decide
  have third : "1st" ≠ "" := by decide
  obtain ⟨spelled, shared⟩ := identifiers_show_words
  refine ⟨member, (spelled "1st é").1 '_' member, first, second, third,
    (shared _ _ first second).mpr (by decide +kernel), fun same => ?_⟩
  exact absurd ((shared _ _ first third).mp same).2.2 (by decide +kernel)

end Naming

end QueryContract
