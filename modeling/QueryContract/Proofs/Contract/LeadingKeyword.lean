import Mathlib.Data.List.Forall2
import Mathlib.Logic.Relation
import QueryContract.Contract.QueryKind
import QueryContract.Proofs.Grammar.VariableLines

/-!
The keyword that a query opens with. Blanks and ended line comments may come before it, and no letter
may follow it; nothing else about the query tells its kind.
-/

namespace QueryContract

open Text

namespace QueryKind

/-- What may come before the keyword: blanks, and comments with the line feed that ends them. -/
inductive LeadIn : List Char → Prop
  | nil : LeadIn []
  | blank {c : Char} {rest : List Char} (h : isBlank c = true) (later : LeadIn rest) :
      LeadIn (c :: rest)
  | comment {body rest : List Char} (h : '\n' ∉ body) (later : LeadIn rest) :
      LeadIn ('-' :: '-' :: (body ++ '\n' :: rest))

/-- The letters of a word, each of them small or capital. -/
def Spells (word letters : List Char) : Prop :=
  List.Forall₂ (fun small c => c = small ∨ c = small.toUpper) word letters

/-- The word is the first thing in the query that is no blank and no comment, and it ends there. -/
def OpensWith (word query : String) : Prop :=
  ∃ lead letters rest, query.toList = lead ++ letters ++ rest ∧ LeadIn lead ∧
    Spells word.toList letters ∧ ∀ c ∈ rest.head?, c.isAlpha = false

/-- A comment that stands before every keyword goes on to the end of the query. -/
def EndsInComment (query : String) : Prop :=
  ∃ lead body, query.toList = lead ++ '-' :: '-' :: body ∧ LeadIn lead ∧ '\n' ∉ body

/-- One round of passing over comments: the text after the first one and after the blanks that
    follow it. There is none for a text that starts with no comment. -/
def pastComment? : List Char → Option (List Char)
  | '-' :: '-' :: rest => some (trimStart ((rest.dropWhile (· != '\n')).drop 1))
  | _ => none

variable {lead text next body word letters rest : List Char}

theorem afterComments_blank {c : Char} (h : isBlank c = true) (rest : List Char) :
    afterComments false (c :: rest) = afterComments false rest := by
  simp [afterComments, h]

theorem afterComments_comment (rest : List Char) :
    afterComments false ('-' :: '-' :: rest) = afterComments true rest := by
  have solid : isBlank '-' = false := by decide
  have inside : ('-' != '\n') = true := by decide
  simp [afterComments, solid, inside]

theorem afterComments_inside (h : '\n' ∉ body) (rest : List Char) :
    afterComments true (body ++ rest) = afterComments true rest := by
  induction body with
  | nil => rfl
  | cons c others ih =>
    have inside : (c != '\n') = true := by simpa using (List.ne_of_not_mem_cons h).symm
    simp [afterComments, inside, ih (List.not_mem_of_not_mem_cons h)]

theorem afterComments_lineFeed (rest : List Char) :
    afterComments true ('\n' :: rest) = afterComments false rest := rfl

theorem afterComments_unended (h : '\n' ∉ body) : afterComments true body = [] := by
  have inside := afterComments_inside h []
  rw [List.append_nil] at inside
  exact inside

theorem afterComments_solid {c : Char} (solid : isBlank c = false)
    (opens : ¬(c = '-' ∧ rest.head? = some '-')) : afterComments false (c :: rest) = c :: rest := by
  simp [afterComments, solid, opens]

/-- A text is ended by a line feed or goes on without one. -/
theorem ended_cases (text : List Char) :
    '\n' ∉ text ∨ ∃ body rest, text = body ++ '\n' :: rest ∧ '\n' ∉ body := by
  by_cases feed : '\n' ∈ text
  · exact .inr (List.eq_append_cons_of_mem feed)
  · exact .inl feed

theorem LeadIn.afterComments_append (h : LeadIn lead) (rest : List Char) :
    afterComments false (lead ++ rest) = afterComments false rest := by
  induction h with
  | nil => rfl
  | blank blank _ ih => rw [List.cons_append, afterComments_blank blank, ih]
  | comment unended _ ih =>
    simp only [List.cons_append, List.append_assoc]
    rw [afterComments_comment, afterComments_inside unended, afterComments_lineFeed, ih]

/-- What is passed over is a lead-in, unless the text ends inside a comment. -/
theorem exists_leadIn (text : List Char) : ∃ lead, LeadIn lead ∧
    (text = lead ++ afterComments false text ∨
      ∃ body, text = lead ++ '-' :: '-' :: body ∧ '\n' ∉ body) := by
  induction length : text.length using Nat.strong_induction_on generalizing text with
  | _ n ih =>
    subst length
    cases text with
    | nil => exact ⟨[], .nil, .inl rfl⟩
    | cons c others =>
      cases blank : isBlank c with
      | true =>
        obtain ⟨lead, leads, split⟩ := ih others.length (by simp) others rfl
        refine ⟨c :: lead, .blank blank leads, ?_⟩
        rw [afterComments_blank blank]
        rcases split with split | ⟨body, split, unended⟩
        · exact .inl (congrArg (c :: ·) split)
        · exact .inr ⟨body, congrArg (c :: ·) split, unended⟩
      | false =>
        by_cases opens : c = '-' ∧ others.head? = some '-'
        · obtain ⟨rfl, second⟩ := opens
          obtain ⟨inside, rfl⟩ := List.head?_eq_some_iff.mp second
          rcases ended_cases inside with unended | ⟨body, rest, rfl, ended⟩
          · exact ⟨[], .nil, .inr ⟨inside, rfl, unended⟩⟩
          · obtain ⟨lead, leads, split⟩ := ih rest.length (by simp; omega) rest rfl
            refine ⟨'-' :: '-' :: (body ++ '\n' :: lead), .comment ended leads, ?_⟩
            rw [afterComments_comment, afterComments_inside ended, afterComments_lineFeed]
            rcases split with split | ⟨last, split, unended⟩
            · exact .inl (by simpa using split)
            · exact .inr ⟨last, by simpa using split, unended⟩
        · exact ⟨[], .nil, .inl (afterComments_solid blank opens).symm⟩

section Rounds

theorem pastComment?_ended (h : '\n' ∉ body) (rest : List Char) :
    pastComment? ('-' :: '-' :: (body ++ '\n' :: rest)) = some (trimStart rest) := by
  have passed : (body ++ '\n' :: rest).dropWhile (· != '\n') = '\n' :: rest := by
    apply dropWhile_append_of_stop
    · intro c member
      have differs : c ≠ '\n' := fun same => h (same ▸ member)
      simpa using differs
    · simp
  rw [pastComment?, passed, List.drop_one, List.tail_cons]

theorem pastComment?_unended (h : '\n' ∉ body) : pastComment? ('-' :: '-' :: body) = some [] := by
  have passed : body.dropWhile (· != '\n') = [] := by
    rw [List.dropWhile_eq_nil_iff]
    intro c member
    have differs : c ≠ '\n' := fun same => h (same ▸ member)
    simpa using differs
  rw [pastComment?, passed]
  rfl

theorem afterComments_trimStart (text : List Char) :
    afterComments false (trimStart text) = afterComments false text := by
  induction text with
  | nil => rfl
  | cons c rest ih =>
    cases blank : isBlank c with
    | true => rw [trimStart, List.dropWhile_cons_of_pos blank, ← trimStart, ih,
        afterComments_blank blank]
    | false => rw [trimStart, List.dropWhile_cons_of_neg (by simp [blank])]

theorem length_trimStart_le (text : List Char) : (trimStart text).length ≤ text.length :=
  (List.dropWhile_sublist _).length_le

/-- A round takes something away, and leaves what comes after the comments as it is. -/
theorem round_spec (h : pastComment? text = some next) : next.length < text.length ∧
    afterComments false text = afterComments false next ∧ ∀ c ∈ next.head?, isBlank c = false := by
  unfold pastComment? at h
  split at h
  · rename_i inside
    have first : ∀ c ∈ next.head?, isBlank c = false := by
      rw [← Option.some.inj h]
      exact head?_dropWhile_eq_false isBlank _
    rcases ended_cases inside with unended | ⟨body, rest, rfl, ended⟩
    · have last : some [] = some next := (pastComment?_unended unended).symm.trans h
      cases last
      exact ⟨by simp, (afterComments_comment inside).trans (afterComments_unended unended), first⟩
    · have later : some (trimStart rest) = some next := (pastComment?_ended ended rest).symm.trans h
      cases later
      have shorter := length_trimStart_le rest
      refine ⟨by simp; omega, ?_, first⟩
      rw [afterComments_comment, afterComments_inside ended, afterComments_lineFeed,
        afterComments_trimStart]
  · cases h

theorem afterComments_of_pastComment?_eq_none (h : pastComment? text = none)
    (solid : ∀ c ∈ text.head?, isBlank c = false) : afterComments false text = text := by
  cases text with
  | nil => rfl
  | cons c others =>
    apply afterComments_solid (solid c rfl)
    intro opens
    obtain ⟨rfl, second⟩ := opens
    obtain ⟨inside, rfl⟩ := List.head?_eq_some_iff.mp second
    cases h

/-- Round after round, what is left is the text after the comments, and no further round can
    follow. -/
theorem rounds_end (solid : ∀ c ∈ text.head?, isBlank c = false) :
    Relation.ReflTransGen (fun earlier later => pastComment? earlier = some later) text
        (afterComments false text) ∧
      pastComment? (afterComments false text) = none := by
  induction length : text.length using Nat.strong_induction_on generalizing text with
  | _ n ih =>
    subst length
    cases round : pastComment? text with
    | none =>
      rw [afterComments_of_pastComment?_eq_none round solid]
      exact ⟨.refl, round⟩
    | some next =>
      obtain ⟨shorter, same, first⟩ := round_spec round
      obtain ⟨later, ended⟩ := ih next.length shorter first rfl
      rw [same]
      exact ⟨.head round later, ended⟩

end Rounds

section Words

theorem lowercase_eq_iff_spells (small : ∀ c ∈ word, c.isLower = true) :
    lowercase letters = word ↔ Spells word letters := by
  induction word generalizing letters with
  | nil => simp [lowercase, Spells]
  | cons c others ih =>
    obtain ⟨first, later⟩ := List.forall_mem_cons.mp small
    cases letters with
    | nil => simp [lowercase, Spells]
    | cons d rest =>
      rw [lowercase, List.map_cons, List.cons_eq_cons, toLower_eq_iff first, ← lowercase, ih later,
        Spells, Spells, List.forall₂_cons]

theorem Spells.isAlpha (small : ∀ c ∈ word, c.isLower = true) (h : Spells word letters) :
    ∀ c ∈ letters, c.isAlpha = true := by
  induction h with
  | nil => simp
  | cons spells _ ih =>
    obtain ⟨first, later⟩ := List.forall_mem_cons.mp small
    have letter := isAlphanum_of_isLower first
    refine List.forall_mem_cons.mpr ⟨?_, ih later⟩
    rcases spells with rfl | rfl
    · exact alphanum_cases (p := fun c => c.isLower = true → c.isAlpha = true) (by decide) letter
        first
    · exact alphanum_cases (p := fun c => c.isLower = true → c.toUpper.isAlpha = true) (by decide)
        letter first

theorem afterComments_of_isAlpha (some : letters ≠ []) (alpha : ∀ c ∈ letters, c.isAlpha = true)
    (rest : List Char) : afterComments false (letters ++ rest) = letters ++ rest := by
  cases letters with
  | nil => exact absurd rfl some
  | cons c others =>
    have letter := alpha c List.mem_cons_self
    have part : isNamePart c = true := by simp [isNamePart, isAlphanum_of_isAlpha letter]
    apply afterComments_solid (isBlank_eq_false_of_isNamePart part)
    intro opens
    rw [opens.1] at letter
    cases letter

theorem keyword_of_endsInComment {query : String} (h : EndsInComment query) :
    keyword query.toList = [] := by
  obtain ⟨lead, body, split, leads, unended⟩ := h
  rw [keyword, split, leads.afterComments_append, afterComments_comment,
    afterComments_unended unended]
  rfl

theorem opensWith_iff {word query : String} (some : word.toList ≠ [])
    (small : ∀ c ∈ word.toList, c.isLower = true) :
    OpensWith word query ↔ sameIgnoringCase (keyword query.toList) word.toList = true := by
  have lowered : lowercase word.toList = word.toList :=
    (lowercase_eq_iff_spells small).mpr (List.forall₂_same.mpr fun _ _ => .inl rfl)
  rw [sameIgnoringCase, beq_iff_eq, lowered, lowercase_eq_iff_spells small]
  constructor
  · intro opens
    obtain ⟨lead, letters, rest, split, leads, spells, ended⟩ := opens
    have alpha := spells.isAlpha small
    have nonempty : letters ≠ [] := by
      intro empty
      subst empty
      exact some (List.forall₂_nil_right_iff.mp spells)
    rw [keyword, split, List.append_assoc, leads.afterComments_append,
      afterComments_of_isAlpha nonempty alpha, takeWhile_append_of_stop alpha ended]
    exact spells
  · intro spells
    obtain ⟨lead, leads, split⟩ := exists_leadIn query.toList
    rcases split with split | ⟨body, split, unended⟩
    · refine ⟨lead, keyword query.toList, (afterComments false query.toList).dropWhile Char.isAlpha,
        ?_, leads, spells, head?_dropWhile_eq_false _ _⟩
      rw [List.append_assoc, keyword, List.takeWhile_append_dropWhile]
      exact split
    · rw [keyword_of_endsInComment ⟨lead, body, split, leads, unended⟩] at spells
      exact absurd (List.forall₂_nil_right_iff.mp spells) some

end Words

/-- The kind of a query is told by the keyword that it opens with; a query without one of the two
    keywords changes rows, also if it ends inside a comment before them. The comments are passed
    over in finitely many rounds, whatever the query. -/
theorem kind_told_by_leading_keyword (query : String) :
    (ofQuery query = .select ↔ OpensWith "select" query) ∧
      (ofQuery query = .insert ↔ OpensWith "insert" query) ∧
      (ofQuery query = .change ↔ ¬OpensWith "select" query ∧ ¬OpensWith "insert" query) ∧
      (EndsInComment query → ofQuery query = .change) ∧
      Relation.ReflTransGen (fun earlier later => pastComment? earlier = some later)
          (trimStart query.toList) (afterComments false query.toList) ∧
        pastComment? (afterComments false query.toList) = none := by
  have selects := @opensWith_iff "select" query (by decide) (by simp)
  have inserts := @opensWith_iff "insert" query (by decide) (by simp)
  have rounds := @rounds_end (trimStart query.toList) (head?_dropWhile_eq_false isBlank _)
  rw [afterComments_trimStart] at rounds
  have apart : sameIgnoringCase (keyword query.toList) "select".toList = true →
      sameIgnoringCase (keyword query.toList) "insert".toList = false := by
    intro same
    rw [sameIgnoringCase, beq_iff_eq] at same
    rw [sameIgnoringCase, same]
    decide
  have none : EndsInComment query → sameIgnoringCase (keyword query.toList) "select".toList = false ∧
      sameIgnoringCase (keyword query.toList) "insert".toList = false := by
    intro ends
    rw [keyword_of_endsInComment ends]
    decide
  rw [selects, inserts, ofQuery]
  generalize sameIgnoringCase (keyword query.toList) "select".toList = select at apart none ⊢
  generalize sameIgnoringCase (keyword query.toList) "insert".toList = insert at apart none ⊢
  refine ⟨?_, ?_, ?_, fun ends => ?_, rounds⟩
  · cases select <;> cases insert <;> simp
  · cases select <;> cases insert <;> simp_all
  · cases select <;> cases insert <;> simp
  · obtain ⟨rfl, rfl⟩ := none ends
    rfl

theorem kind_of_commentedQueries :
    EndsInComment " -- SELECT 1" ∧ ofQuery " -- SELECT 1" = .change ∧
      OpensWith "select" "-- insert\n\tSeLeCT*" := by
  have ends : EndsInComment " -- SELECT 1" :=
    ⟨[' '], " SELECT 1".toList, by decide, .blank (by decide) .nil, by decide⟩
  have select : ofQuery "-- insert\n\tSeLeCT*" = .select := by decide +kernel
  exact ⟨ends, (kind_told_by_leading_keyword " -- SELECT 1").2.2.2.1 ends,
    (kind_told_by_leading_keyword "-- insert\n\tSeLeCT*").1.mp select⟩

end QueryKind

end QueryContract
