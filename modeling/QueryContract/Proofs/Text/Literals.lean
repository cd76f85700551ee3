import QueryContract.Proofs.Text.Quoting

/-!
The grammar of quoted text, apart from its reader: what stands between the quotes, character by
character and escape by escape, and what may follow the closing quote. The reader accepts exactly
the texts of this grammar.
-/

namespace QueryContract.Text.Quoted

/-- What stands for one character inside the quotes: the character itself, a backslash and a letter,
    a unit of UTF-16, or two of them where one does not suffice. -/
inductive StandsFor : List Char → Char → Prop
  | plain {c : Char} (quote : c ≠ '"') (backslash : c ≠ '\\') (control : ¬c < ' ') :
      StandsFor [c] c
  | letter {letter c : Char} (found : escapeLetters.lookup letter = some c) :
      StandsFor ['\\', letter] c
  | unit {digits : List Char} {unit : Nat} (value : IsUnit digits unit)
      (low : isLowSurrogate unit = false) (high : isHighSurrogate unit = false) :
      StandsFor ('\\' :: 'u' :: digits) (Char.ofNat unit)
  | pair {first second : List Char} {high low : Nat} (front : IsUnit first high)
      (leads : isHighSurrogate high = true) (back : IsUnit second low)
      (trails : isLowSurrogate low = true) :
      StandsFor ('\\' :: 'u' :: first ++ '\\' :: 'u' :: second) (joinSurrogates high low)

/-- The text between the quotes and what it decodes to. -/
inductive Body : List Char → List Char → Prop
  | nil : Body [] []
  | cons {item rest decoded : List Char} {c : Char} (first : StandsFor item c)
      (others : Body rest decoded) : Body (item ++ rest) (c :: decoded)

def IsLiteral (raw decoded : List Char) : Prop :=
  ∃ body gap, raw = '"' :: (body ++ '"' :: gap) ∧ Body body decoded ∧ ∀ c ∈ gap, MayFollow c

namespace Reader

variable {reader next : Reader} {text digits latest : List Char} {high? : Option Nat} {c : Char}
  {unit : Nat}

theorem length_le_byteLength (text : List Char) : text.length ≤ byteLength text := by
  induction text with
  | nil => exact Nat.zero_le _
  | cons c rest ih =>
    have size := c.utf8Size_pos
    rw [List.length_cons, byteLength_cons]
    omega

theorem isLowSurrogate_of_isHighSurrogate (h : isHighSurrogate unit = true) :
    isLowSurrogate unit = false := by
  simp only [isHighSurrogate, isLowSurrogate, Bool.and_eq_true, decide_eq_true_eq,
    Bool.and_eq_false_iff, decide_eq_false_iff_not] at *
  omega

theorem adds_pair {first second : List Char} {high low : Nat} (front : IsUnit first high)
    (leads : isHighSurrogate high = true) (back : IsUnit second low)
    (trails : isLowSurrogate low = true) :
    Adds ('\\' :: 'u' :: first ++ '\\' :: 'u' :: second) [joinSurrogates high low] := by
  intro reader plain
  let opened := (reader.moveTo '\\' .escape).moveTo 'u' (.digits none [])
  obtain ⟨middle, c, same, judged⟩ :=
    foldlM_unit (rfl : opened.mode = .digits none []) (by decide) front
  let halved := middle.moveTo c (.pairBackslash high)
  let reopened := (halved.moveTo '\\' (.pairLetter high)).moveTo 'u' (.digits (some high) [])
  obtain ⟨last, c', same', judged'⟩ :=
    foldlM_unit (rfl : reopened.mode = .digits (some high) []) (by decide) back
  have half : first.foldlM step opened = .ok halved := by
    simp [judged, acceptUnit, isLowSurrogate_of_isHighSurrogate leads, leads, halved]
  refine ⟨last.emit c' (joinSurrogates high low), ?_, rfl, ?_⟩
  · rw [List.cons_append, foldlM_step_cons (step_backslash plain), List.cons_append,
      foldlM_step_cons rfl, List.foldlM_append, half]
    change ('\\' :: 'u' :: second).foldlM step halved = _
    rw [foldlM_step_cons rfl, foldlM_step_cons rfl]
    simp [reopened, judged', acceptUnit, trails]
  · rw [text_emit, same']
    exact congrArg (· ++ _) same

theorem adds_of_standsFor {item : List Char} (h : StandsFor item c) : Adds item [c] := by
  cases h with
  | plain quote backslash control => exact adds_plain quote backslash control
  | letter found =>
    refine adds_escape ?_ found
    rintro rfl
    cases found
  | unit value low high => exact adds_unit value low high
  | pair front leads back trails => exact adds_pair front leads back trails

theorem adds_of_body {decoded : List Char} (h : Body text decoded) : Adds text decoded := by
  induction h with
  | nil => exact adds_nil
  | cons first _ ih => exact (adds_of_standsFor first).append ih

theorem step_mayFollow (closed : reader.mode = .closed) (h : MayFollow c) :
    reader.step c = .ok (reader.moveTo c .closed) := by
  simp only [step, closed]
  exact if_pos h

theorem closed_of_mayFollow (closed : reader.mode = .closed) (h : ∀ c ∈ text, MayFollow c) :
    ∃ next, text.foldlM step reader = .ok next ∧ next.mode = .closed ∧ next.text = reader.text := by
  induction text generalizing reader with
  | nil => exact ⟨reader, rfl, closed, rfl⟩
  | cons c rest ih =>
    obtain ⟨here, later⟩ := List.forall_mem_cons.mp h
    rw [foldlM_step_cons (step_mayFollow closed here)]
    exact ih (rfl : (reader.moveTo c .closed).mode = .closed) later

end Reader

theorem read_of_isLiteral {raw decoded : List Char} (h : IsLiteral raw decoded) :
    read raw = .ok decoded := by
  obtain ⟨body, gap, rfl, inside, after⟩ := h
  obtain ⟨last, done, plain, text⟩ := Reader.adds_of_body inside Reader.start rfl
  have quote : last.step '"' = .ok (last.moveTo '"' .closed) := by simp [Reader.step, plain]
  obtain ⟨next, ended, closed, same⟩ :=
    Reader.closed_of_mayFollow (rfl : (last.moveTo '"' .closed).mode = .closed) after
  have run : (body ++ '"' :: gap).foldlM Reader.step Reader.start = .ok next := by
    rw [List.foldlM_append, done]
    exact (Reader.foldlM_step_cons quote gap).trans ended
  have decodes : next.text = decoded := same.trans text
  rw [read, List.drop_one, List.tail_cons, run, ← decodes]
  simp only [bind, Except.bind, closed]

namespace Reader

variable {reader next : Reader} {text digits latest : List Char} {high? : Option Nat} {c : Char}
  {unit : Nat}

/-- A text that ends after its closing quote has a next character as long as it is not closed. -/
theorem exists_step {current : Mode} (mode : reader.mode = current) (unfinished : current ≠ .closed)
    (h : text.foldlM step reader = .ok next) (closed : next.mode = .closed) :
    ∃ c rest middle, text = c :: rest ∧ reader.step c = .ok middle ∧
      rest.foldlM step middle = .ok next := by
  cases text with
  | nil =>
    cases h
    exact absurd (mode.symm.trans closed) unfinished
  | cons c rest =>
    obtain ⟨middle, stepped, others⟩ := exists_of_foldlM_cons h
    exact ⟨c, rest, middle, rfl, stepped, others⟩

/-- Inside an escape the text goes on with four digits. -/
theorem isUnit_of_foldlM (mode : reader.mode = .digits high? latest)
    (short : byteLength latest < 4) (h : text.foldlM step reader = .ok next)
    (closed : next.mode = .closed) : ∃ digits rest unit, ∃ (last accepted : Reader) (c : Char),
      text = digits ++ rest ∧ IsUnit (latest.reverse ++ digits) unit ∧ last.text = reader.text ∧
        last.acceptUnit c high? unit = .ok accepted ∧ rest.foldlM step accepted = .ok next := by
  induction text generalizing reader latest with
  | nil =>
    cases h
    rw [mode] at closed
    cases closed
  | cons c rest ih =>
    obtain ⟨middle, stepped, others⟩ := exists_of_foldlM_cons h
    simp only [step, mode, acceptDigit] at stepped
    split at stepped
    · rename_i more
      cases stepped
      obtain ⟨digits, rest, unit, last, accepted, c', rfl, value, same, judged, run⟩ :=
        ih rfl more others
      refine ⟨c :: digits, rest, unit, last, accepted, c', rfl, ?_, same, judged, run⟩
      simpa using value
    · rename_i full
      split at stepped
      · rename_i unit value
        have bytes := byteLength_of_hexValue? value
        rw [byteLength_reverse, List.length_reverse] at bytes
        have fewer := length_le_byteLength latest
        rw [List.length_cons] at bytes
        rw [List.reverse_cons] at value
        refine ⟨[c], rest, unit, reader, middle, c, rfl, ⟨?_, value⟩, rfl, stepped, others⟩
        rw [List.length_append, List.length_reverse, List.length_singleton]
        omega
      · cases stepped

/-- After the first half of a pair the second follows. -/
theorem isUnit_of_pairBackslash {high : Nat} (mode : reader.mode = .pairBackslash high)
    (h : text.foldlM step reader = .ok next) (closed : next.mode = .closed) :
    ∃ second rest low, ∃ after : Reader, text = '\\' :: 'u' :: (second ++ rest) ∧
      IsUnit second low ∧ isLowSurrogate low = true ∧ after.mode = .plain ∧
        after.text = reader.text ++ [joinSurrogates high low] ∧
          rest.foldlM step after = .ok next := by
  obtain ⟨slash, text, halved, rfl, stepped, h⟩ := exists_step mode Mode.noConfusion h closed
  simp only [step, mode] at stepped
  split at stepped
  · rename_i backslash
    cases stepped
    have unfinished : Mode.pairLetter high ≠ .closed := Mode.noConfusion
    obtain ⟨letter, text, opened, rfl, stepped, h⟩ := exists_step rfl unfinished h closed
    simp only [step, moveTo] at stepped
    split at stepped
    · rename_i unicode
      cases stepped
      obtain ⟨second, rest, low, last, after, c, rfl, value, same, judged, run⟩ :=
        isUnit_of_foldlM rfl (by decide) h closed
      simp only [acceptUnit] at judged
      split at judged
      · rename_i trails
        cases judged
        refine ⟨second, rest, low, _, by rw [backslash, unicode], value, trails, rfl, ?_, run⟩
        rw [text_emit, same]
        rfl
      · cases judged
    · cases stepped
  · cases stepped

/-- What follows a backslash, up to the end of the escape. -/
theorem standsFor_of_escape (mode : reader.mode = .escape)
    (h : text.foldlM step reader = .ok next) (closed : next.mode = .closed) :
    ∃ item rest c, ∃ after : Reader, text = item ++ rest ∧ StandsFor ('\\' :: item) c ∧
      after.mode = .plain ∧ after.text = reader.text ++ [c] ∧
        rest.foldlM step after = .ok next := by
  obtain ⟨letter, text, middle, rfl, stepped, h⟩ := exists_step mode Mode.noConfusion h closed
  simp only [step, mode] at stepped
  split at stepped
  · rename_i unicode
    cases stepped
    obtain ⟨first, rest, unit, last, accepted, c, rfl, value, same, judged, run⟩ :=
      isUnit_of_foldlM rfl (by decide) h closed
    simp only [acceptUnit] at judged
    split at judged
    · cases judged
    rename_i low
    rw [Bool.not_eq_true] at low
    split at judged
    · rename_i high
      cases judged
      obtain ⟨second, rest, half, after, rfl, value', trails, plain, decoded, run⟩ :=
        isUnit_of_pairBackslash rfl run closed
      refine ⟨_, rest, _, after, ?_, .pair value high value' trails, plain, ?_, run⟩
      · simp [unicode]
      · rw [decoded]
        exact congrArg (· ++ _) same
    · rename_i high
      rw [Bool.not_eq_true] at high
      cases judged
      refine ⟨_, rest, _, _, ?_, .unit value low high, rfl, ?_, run⟩
      · simp [unicode]
      · rw [text_emit, same]
        rfl
  · split at stepped
    · rename_i decoded found
      cases stepped
      exact ⟨[letter], text, decoded, _, rfl, .letter found, rfl, text_emit .., h⟩
    · cases stepped

/-- What is read is a body, the closing quote and what may follow it. The induction is on the length
    of the text, since an escape is several characters long. -/
theorem body_of_foldlM (plain : reader.mode = .plain) (h : text.foldlM step reader = .ok next)
    (closed : next.mode = .closed) : ∃ body gap decoded, text = body ++ '"' :: gap ∧
      Body body decoded ∧ (∀ c ∈ gap, MayFollow c) ∧ next.text = reader.text ++ decoded := by
  induction length : text.length using Nat.strongRecOn generalizing text reader with
  | ind size ih =>
    obtain ⟨c, text, middle, rfl, stepped, h⟩ := exists_step plain Mode.noConfusion h closed
    rw [List.length_cons] at length
    simp only [step, plain] at stepped
    split at stepped
    · rename_i quote
      cases stepped
      obtain ⟨-, after, same⟩ := closed_of_foldlM rfl h
      exact ⟨[], text, [], by rw [quote]; rfl, .nil, after, by rw [same, List.append_nil]; rfl⟩
    split at stepped
    · rename_i backslash
      cases stepped
      obtain ⟨item, rest, character, after, rfl, stands, plain', here, run⟩ :=
        standsFor_of_escape rfl h closed
      rw [List.length_append] at length
      obtain ⟨body, gap, decoded, rfl, inside, follows, there⟩ :=
        ih rest.length (by omega) plain' run rfl
      refine ⟨_, gap, _, ?_, .cons stands inside, follows, ?_⟩
      · simp [backslash]
      · rw [there, here, List.append_assoc]
        rfl
    split at stepped
    · cases stepped
    · rename_i quote backslash control
      cases stepped
      obtain ⟨body, gap, decoded, rfl, inside, follows, there⟩ :=
        ih text.length (by omega) rfl h rfl
      refine ⟨_, gap, _, ?_, .cons (.plain quote backslash control) inside, follows, ?_⟩
      · simp
      · rw [there, text_emit, List.append_assoc]
        rfl

end Reader

theorem isLiteral_of_read {raw decoded : List Char} (quoted : raw.head? = some '"')
    (h : read raw = .ok decoded) : IsLiteral raw decoded := by
  obtain ⟨text, rfl⟩ := List.head?_eq_some_iff.mp quoted
  rw [read, List.drop_one, List.tail_cons] at h
  cases run : text.foldlM Reader.step Reader.start with
  | error fault =>
    rw [run] at h
    cases h
  | ok last =>
    rw [run] at h
    simp only [bind, Except.bind] at h
    split at h
    · rename_i closed
      cases h
      obtain ⟨body, gap, decoded, rfl, inside, follows, same⟩ :=
        Reader.body_of_foldlM rfl run closed
      rw [same]
      exact ⟨body, gap, rfl, inside, follows⟩
    · cases h

/-- The reader accepts the literals of the grammar and decodes them as the grammar says. -/
theorem read_eq_ok_iff {raw decoded : List Char} (quoted : raw.head? = some '"') :
    read raw = .ok decoded ↔ IsLiteral raw decoded :=
  ⟨isLiteral_of_read quoted, read_of_isLiteral⟩

theorem IsLiteral.head? {raw decoded : List Char} (h : IsLiteral raw decoded) :
    raw.head? = some '"' := by
  obtain ⟨body, gap, rfl, -⟩ := h
  rfl

end QueryContract.Text.Quoted
