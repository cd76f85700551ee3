import QueryContract.Proofs.Naming.Spelling

/-!
Method names. A method is the letters and digits of its identifier, less the stripped word or with
all of them, and its capitals are the letters that begin the words of the identifier.
-/

namespace QueryContract.Naming

open Text (lowercase)

/-- The letters and digits of an identifier in lower case. -/
def plainLetters (identifier : String) : List Char :=
  lowercase (identifier.toList.filter (· ≠ '_'))

/-- What a method is in lower case: nothing but the stripped word goes from the front of the
    letters, and it stays if nothing or a digit would come first. -/
inductive Shortened (stripped letters : List Char) : List Char → Prop
  | empty (none : letters = []) : Shortened stripped letters ['_']
  | removed {rest : List Char} (word : stripped ≠ []) (front : letters = lowercase stripped ++ rest)
      (left : rest ≠ []) (letter : startsWithDigit rest = false) : Shortened stripped letters rest
  | kept (some : letters ≠ [])
      (refused : ∀ rest, letters = lowercase stripped ++ rest →
        stripped = [] ∨ rest = [] ∨ startsWithDigit rest = true) :
      Shortened stripped letters (if startsWithDigit letters then '_' :: letters else letters)

/-! Letter case of the words of an identifier. -/

/-- A text without its underscores, with a capital after each of them. -/
def cased (begins : Bool) : List Char → List Char
  | [] => []
  | c :: rest =>
    if c = '_' then cased true rest
    else (if begins then c.toLower.toUpper else c.toLower) :: cased false rest

theorem isUpper_cased {c : Char} (word : c.isAlphanum = true) (begins : Bool) :
    (if begins then c.toLower.toUpper else c.toLower).isUpper = (c.isAlpha && begins) := by
  refine Text.alphanum_cases (p := fun c => ∀ begins : Bool,
    (if begins then c.toLower.toUpper else c.toLower).isUpper = (c.isAlpha && begins)) ?_ word
      begins
  decide

theorem toLower_cased {c : Char} (word : c.isAlphanum = true) (begins : Bool) :
    (if begins then c.toLower.toUpper else c.toLower).toLower = c.toLower := by
  refine Text.alphanum_cases (p := fun c => ∀ begins : Bool,
    (if begins then c.toLower.toUpper else c.toLower).toLower = c.toLower) ?_ word begins
  decide

theorem cased_eq {text first : List Char} {rest : List (List Char)}
    (split : text.splitOn '_' = first :: rest) :
    cased true text = (first :: rest).flatMap titleCase ∧
      cased false text = lowercase first ++ rest.flatMap titleCase := by
  induction text generalizing first rest with
  | nil =>
    cases split
    exact ⟨rfl, rfl⟩
  | cons c text ih =>
    cases pieces : text.splitOn '_' with
    | nil => exact absurd pieces (List.splitOn_ne_nil _ _)
    | cons head tail =>
      obtain ⟨title, plain⟩ := ih pieces
      rw [List.splitOn_eq_splitOnP] at split pieces
      rw [List.splitOnP_cons_eq_if_modifyHead, pieces] at split
      by_cases gap : c = '_'
      · rw [if_pos (by simpa using gap)] at split
        cases split
        exact ⟨by rw [cased, if_pos gap, title]; rfl, by rw [cased, if_pos gap, title]; rfl⟩
      · rw [if_neg (by simpa using gap)] at split
        cases split
        exact ⟨by rw [cased, if_neg gap, plain]; rfl, by rw [cased, if_neg gap, plain]; rfl⟩

theorem camelCase_eq (identifier : List Char) : camelCase identifier = cased true identifier := by
  cases split : identifier.splitOn '_' with
  | nil => exact absurd split (List.splitOn_ne_nil _ _)
  | cons first rest => rw [camelCase, split, (cased_eq split).1]

theorem lowercase_cased {text : List Char} (h : ∀ c ∈ text, isIdentifierPart c = true)
    (begins : Bool) : lowercase (cased begins text) = lowercase (text.filter (· ≠ '_')) := by
  induction text generalizing begins with
  | nil => rfl
  | cons c rest ih =>
    obtain ⟨here, later⟩ := List.forall_mem_cons.mp h
    by_cases gap : c = '_'
    · rw [cased, if_pos gap, ih later, List.filter_cons_of_neg (by simpa using gap)]
    · have word := isAlphanum_of_isIdentifierPart here gap
      have later := ih later false
      rw [lowercase] at later
      rw [cased, if_neg gap, List.filter_cons_of_pos (by simpa using gap), lowercase, List.map_cons,
        toLower_cased word, later]
      rfl

theorem length_cased (begins : Bool) (text : List Char) :
    (cased begins text).length = (text.filter (· ≠ '_')).length := by
  induction text generalizing begins with
  | nil => rfl
  | cons c rest ih =>
    by_cases gap : c = '_' <;> simp [cased, gap, ih]

/-- Whether a word begins after the text, if one begins after the empty text or not. -/
def beginsAfter (begins : Bool) (before : List Char) : Bool :=
  (before.getLast?.map (· == '_')).getD begins

theorem beginsAfter_cons (begins : Bool) (c : Char) (before : List Char) :
    beginsAfter begins (c :: before) = beginsAfter (c == '_') before := by
  unfold beginsAfter
  rw [List.getLast?_cons]
  cases before.getLast? <;> rfl

theorem beginsAfter_true_iff (before : List Char) :
    beginsAfter true before = true ↔ before = [] ∨ before.getLast? = some '_' := by
  unfold beginsAfter
  cases last : before.getLast? with
  | none => simp [List.getLast?_eq_none_iff.mp last]
  | some c =>
    have some : before ≠ [] := by
      rintro rfl
      cases last
    simp [some]

/-- Each character comes from one of the text, as many letters and digits from the end. -/
theorem exists_of_cased {begins : Bool} {text early late : List Char} {d : Char}
    (h : cased begins text = early ++ d :: late) :
    ∃ before c after, text = before ++ c :: after ∧ c ≠ '_' ∧
      (after.filter (· ≠ '_')).length = late.length ∧
        d = if beginsAfter begins before then c.toLower.toUpper else c.toLower := by
  induction text generalizing begins early with
  | nil => simp [cased] at h
  | cons first rest ih =>
    rw [cased] at h
    by_cases gap : first = '_'
    · rw [if_pos gap] at h
      obtain ⟨before, c, after, rfl, solid, count, same⟩ := ih h
      refine ⟨first :: before, c, after, rfl, solid, count, ?_⟩
      rw [beginsAfter_cons, gap]
      exact same
    · rw [if_neg gap] at h
      cases early with
      | nil =>
        obtain ⟨same, later⟩ := List.cons.inj h
        exact ⟨[], first, rest, rfl, gap, by rw [← later, length_cased], same.symm⟩
      | cons e early =>
        obtain ⟨before, c, after, rfl, solid, count, same⟩ := ih (List.cons.inj h).2
        refine ⟨first :: before, c, after, rfl, solid, count, ?_⟩
        rw [beginsAfter_cons, beq_false_of_ne gap]
        exact same

/-! From the letters to the method. -/

section Letters

variable {text : List Char} (h : ∀ c ∈ text, c.isAlphanum = true)

include h in
theorem startsWithDigit_lowercase : startsWithDigit (lowercase text) = startsWithDigit text := by
  cases text with
  | nil => rfl
  | cons c rest =>
    exact Text.alphanum_cases (p := fun c => c.toLower.isDigit = c.isDigit) (by decide)
      (h c List.mem_cons_self)

include h in
theorem lowercase_methodStart : lowercase (methodStart text) =
    if text = [] then ['_']
    else if startsWithDigit text then '_' :: lowercase text else lowercase text := by
  cases text with
  | nil => rfl
  | cons c rest =>
    have again : c.toLower.toLower = c.toLower :=
      Text.alphanum_cases (p := fun c => c.toLower.toLower = c.toLower) (by decide)
        (h c List.mem_cons_self)
    rw [methodStart, if_neg (List.cons_ne_nil c rest), startsWithDigit, List.head?_cons,
      Option.any_some]
    cases c.isDigit with
    | true => rfl
    | false => simp [lowercase, again]

end Letters

theorem afterWord?_eq_some {word text rest : List Char} (h : afterWord? word text = some rest) :
    word ≠ [] ∧ lowercase text = lowercase word ++ lowercase rest ∧
      ∃ gone, text = gone ++ rest := by
  unfold afterWord? at h
  split at h
  · rename_i front
    cases h
    rw [Bool.and_eq_true, List.isPrefixOf_iff_prefix] at front
    obtain ⟨later, split⟩ := front.2
    have dropped : lowercase (text.drop word.length) = later := by
      rw [lowercase, List.map_drop, ← lowercase, ← split, lowercase, List.drop_left' (by simp)]
    exact ⟨by simpa using front.1, by rw [dropped, split],
      text.take word.length, (List.take_append_drop _ _).symm⟩
  · cases h

theorem eq_nil_of_afterWord? {word text later : List Char} (h : afterWord? word text = none)
    (front : lowercase text = lowercase word ++ later) : word = [] := by
  have isFront : (lowercase word).isPrefixOf (lowercase text) = true :=
    List.isPrefixOf_iff_prefix.mpr ⟨later, front.symm⟩
  unfold afterWord? at h
  rw [isFront, Bool.and_true] at h
  split at h
  · cases h
  · rename_i empty
    simpa using empty

section Strip

variable {stripped camel : List Char} (h : ∀ c ∈ camel, c.isAlphanum = true)

include h in
theorem shortened_of_kept
    (refused : ∀ rest, lowercase camel = lowercase stripped ++ rest →
      stripped = [] ∨ rest = [] ∨ startsWithDigit rest = true) :
    Shortened stripped (lowercase camel) (lowercase (methodStart camel)) := by
  rw [lowercase_methodStart h, ← startsWithDigit_lowercase h]
  by_cases none : camel = []
  · rw [if_pos none]
    exact .empty (by rw [none]; rfl)
  · rw [if_neg none]
    exact .kept (by simpa [lowercase] using none) refused

variable (stripped) in
include h in
theorem shortened_stripWord :
    Shortened stripped (lowercase camel) (lowercase (methodStart (stripWord stripped camel))) ∧
      ∃ gone, camel = gone ++ stripWord stripped camel := by
  unfold stripWord
  cases found : afterWord? stripped camel with
  | none =>
    have refused rest (front : lowercase camel = lowercase stripped ++ rest) :
        stripped = [] ∨ rest = [] ∨ startsWithDigit rest = true :=
      .inl (eq_nil_of_afterWord? found front)
    exact ⟨shortened_of_kept h refused, [], rfl⟩
  | some rest =>
    obtain ⟨word, front, gone, split⟩ := afterWord?_eq_some found
    have letters : ∀ c ∈ rest, c.isAlphanum = true := fun c member =>
      h c (split ▸ List.mem_append_right gone member)
    dsimp only
    split
    · rename_i blocked
      refine ⟨shortened_of_kept h fun other front' => .inr ?_, [], rfl⟩
      have same : other = lowercase rest := List.append_cancel_left (front'.symm.trans front)
      rw [same, startsWithDigit_lowercase letters]
      rw [Bool.or_eq_true, List.isEmpty_iff] at blocked
      exact blocked.imp_left fun none => by rw [none]; rfl
    · rename_i free
      rw [Bool.or_eq_true, not_or, List.isEmpty_iff, Bool.not_eq_true] at free
      refine ⟨?_, gone, split⟩
      rw [lowercase_methodStart letters, if_neg free.1, free.2, if_neg Bool.false_ne_true]
      refine .removed word front (by simpa [lowercase] using free.1) ?_
      rw [startsWithDigit_lowercase letters, free.2]

end Strip

/-- Behind its first character a method is a part of the camel-case text. -/
theorem exists_tail_methodStart (text : List Char) :
    ∃ gone, text = gone ++ (methodStart text).tail := by
  cases text with
  | nil => exact ⟨[], rfl⟩
  | cons c rest =>
    rw [methodStart]
    split
    · exact ⟨[], rfl⟩
    · exact ⟨[c], rfl⟩

/-- A method is the letters and digits of its identifier, shortened by the stripped word or whole.
    Its first character is no capital. Any other one stands as far from the end as a letter or digit
    of the identifier, and is a capital exactly if that is a letter and begins a word. -/
theorem methods_shorten_identifiers (stripped identifier : String)
    (h : ∀ c ∈ identifier.toList, isIdentifierPart c = true) :
    Shortened stripped.toList (plainLetters identifier)
        (lowercase (methodOf stripped identifier).toList) ∧
      methodOf stripped identifier ≠ "" ∧
      (∀ first ∈ (methodOf stripped identifier).toList.head?, first.isUpper = false) ∧
      ∀ early d late, (methodOf stripped identifier).toList = early ++ d :: late → early ≠ [] →
        ∃ before c after, identifier.toList = before ++ c :: after ∧ c ≠ '_' ∧
          (after.filter (· ≠ '_')).length = late.length ∧ d.toLower = c.toLower ∧
            (d.isUpper = true ↔
              c.isAlpha = true ∧ (before = [] ∨ before.getLast? = some '_')) := by
  have alphanum : ∀ c ∈ camelCase identifier.toList, c.isAlphanum = true := fun _ =>
    isAlphanum_of_mem_camelCase h
  have letters : lowercase (camelCase identifier.toList) = plainLetters identifier := by
    rw [camelCase_eq, lowercase_cased h, plainLetters]
  have spelled := isMethodName_methodOf stripped h
  obtain ⟨shortened, dropped, split⟩ := shortened_stripWord stripped.toList alphanum
  rw [letters] at shortened
  refine ⟨by rwa [methodOf, String.toList_ofList], fun none => ?_, fun first head => ?_,
    fun early d late method behind => ?_⟩
  · rw [none] at spelled
    cases spelled
  · cases text : (methodOf stripped identifier).toList with
    | nil =>
      rw [text] at head
      cases head
    | cons c rest =>
      rw [text] at head spelled
      cases head
      rw [isMethodName, Bool.and_eq_true, Bool.or_eq_true, beq_iff_eq] at spelled
      rcases spelled.1 with lower | underscore
      · exact Text.alphanum_cases (p := fun c => c.isLower = true → c.isUpper = false) (by decide)
          (Text.isAlphanum_of_isLower lower) lower
      · rw [underscore]
        rfl
  · obtain ⟨gone, tail⟩ := exists_tail_methodStart
      (stripWord stripped.toList (camelCase identifier.toList))
    rw [methodOf, String.toList_ofList] at method
    cases early with
    | nil => exact absurd rfl behind
    | cons first early =>
      have place : cased true identifier.toList = (dropped ++ gone ++ early) ++ d :: late := by
        rw [← camelCase_eq, split, tail, method]
        simp
      obtain ⟨before, c, after, text, solid, count, same⟩ := exists_of_cased place
      have word : c.isAlphanum = true :=
        isAlphanum_of_isIdentifierPart (h c (by rw [text]; simp)) solid
      refine ⟨before, c, after, text, solid, count, ?_, ?_⟩
      · rw [same, toLower_cased word]
      · rw [same, isUpper_cased word, Bool.and_eq_true, beginsAfter_true_iff]

theorem method_of_strippedPlayers :
    (∀ c ∈ "PLAYERS_GET_TOP".toList, isIdentifierPart c = true) ∧
      (methodOf "Players" "PLAYERS_GET_TOP").toList = "get".toList ++ 'T' :: "op".toList ∧
      Shortened "Players".toList "playersgettop".toList "gettop".toList ∧
      methodOf "Players" "PLAYERS_GET_TOP" ≠ "" ∧ 'g'.isUpper = false ∧ "get".toList ≠ [] ∧
      ∃ before c after, "PLAYERS_GET_TOP".toList = before ++ c :: after ∧ c ≠ '_' ∧
        (after.filter (· ≠ '_')).length = 2 ∧ 'T'.toLower = c.toLower ∧
          ('T'.isUpper = true ↔ c.isAlpha = true ∧ (before = [] ∨ before.getLast? = some '_')) := by
  have spelled : ∀ c ∈ "PLAYERS_GET_TOP".toList, isIdentifierPart c = true :=
    List.all_eq_true.mp (by decide +kernel)
  have method : (methodOf "Players" "PLAYERS_GET_TOP").toList =
      "get".toList ++ 'T' :: "op".toList := by decide +kernel
  have letters : plainLetters "PLAYERS_GET_TOP" = "playersgettop".toList := by decide +kernel
  have lower : lowercase ("get".toList ++ 'T' :: "op".toList) = "gettop".toList := by decide +kernel
  obtain ⟨shortened, some, small, capitals⟩ :=
    methods_shorten_identifiers "Players" "PLAYERS_GET_TOP" spelled
  rw [method, letters, lower] at shortened
  rw [method] at small
  exact ⟨spelled, method, shortened, some, small 'g' rfl, by decide,
    capitals _ _ _ method (by decide)⟩

end QueryContract.Naming
