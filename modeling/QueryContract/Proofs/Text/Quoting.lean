import Mathlib.Tactic.SplitIfs
import QueryContract.Text.Quoted

/-!
Reading what quoting writes: each character comes back from the escape or the character that stands
for it. What is written has no control characters.
-/

namespace QueryContract.Text.Quoted

/-- Four hexadecimal digits and their value. -/
def IsUnit (digits : List Char) (unit : Nat) : Prop :=
  digits.length = 4 ∧ hexValue? digits = some unit

/-- The characters that may follow the closing quote. -/
def MayFollow (c : Char) : Prop := c = ' ' ∨ c = '\t' ∨ c = '\n' ∨ c = '\r'

namespace Reader

variable {reader next : Reader} {text other decoded further digits latest : List Char}
  {high? : Option Nat} {unit : Nat} {c : Char}

theorem foldlM_step_cons (h : reader.step c = .ok next) (text : List Char) :
    (c :: text).foldlM step reader = text.foldlM step next := by
  rw [List.foldlM_cons, h]
  rfl

theorem exists_of_foldlM_cons (h : (c :: text).foldlM step reader = .ok next) :
    ∃ middle, reader.step c = .ok middle ∧ text.foldlM step middle = .ok next := by
  cases stepped : reader.step c with
  | error fault =>
    rw [List.foldlM_cons, stepped] at h
    cases h
  | ok middle => exact ⟨middle, rfl, (foldlM_step_cons stepped text).symm.trans h⟩

theorem text_emit (reader : Reader) (c decoded : Char) :
    (reader.emit c decoded).text = reader.text ++ [decoded] := List.reverse_cons

theorem step_backslash (plain : reader.mode = .plain) :
    reader.step '\\' = .ok (reader.moveTo '\\' .escape) := by
  simp [step, plain]

/-- Inside the quotes the characters add these decoded ones. -/
def Adds (text decoded : List Char) : Prop :=
  ∀ reader : Reader, reader.mode = .plain → ∃ next : Reader,
    text.foldlM step reader = .ok next ∧ next.mode = .plain ∧ next.text = reader.text ++ decoded

theorem adds_nil : Adds [] [] := fun reader plain =>
  ⟨reader, rfl, plain, (List.append_nil _).symm⟩

theorem Adds.append (h : Adds text decoded) (h' : Adds other further) :
    Adds (text ++ other) (decoded ++ further) := by
  intro reader plain
  obtain ⟨middle, first, between, here⟩ := h reader plain
  obtain ⟨next, second, after, there⟩ := h' middle between
  refine ⟨next, ?_, after, by rw [there, here, List.append_assoc]⟩
  rw [List.foldlM_append, first]
  exact second

theorem adds_plain (quote : c ≠ '"') (backslash : c ≠ '\\') (control : ¬c < ' ') :
    Adds [c] [c] := by
  intro reader plain
  refine ⟨reader.emit c c, ?_, rfl, text_emit reader c c⟩
  exact foldlM_step_cons (by simp [step, plain, quote, backslash, control]) []

theorem adds_escape {letter : Char} (short : letter ≠ 'u')
    (found : escapeLetters.lookup letter = some c) : Adds ['\\', letter] [c] := by
  intro reader plain
  refine ⟨(reader.moveTo '\\' .escape).emit letter c, ?_, rfl, text_emit _ letter c⟩
  rw [foldlM_step_cons (step_backslash plain)]
  exact foldlM_step_cons (by simp [step, moveTo, short, found]) []

theorem utf8Size_of_hexDigit? {value : Nat} (h : hexDigit? c = some value) : c.utf8Size = 1 := by
  have small : c.toNat < 128 := by
    unfold hexDigit? at h
    split at h
    · rename_i digit
      have upper : c.toNat ≤ 57 := of_decide_eq_true (Bool.and_eq_true_iff.mp digit).2
      omega
    split at h
    · rename_i letter
      have upper : c.toNat ≤ 102 := letter.2
      omega
    split at h
    · rename_i letter
      have upper : c.toNat ≤ 70 := letter.2
      omega
    · cases h
  rw [Char.utf8Size_eq_one_iff]
  exact Nat.le_of_lt_succ small

theorem byteLength_cons (c : Char) (text : List Char) :
    byteLength (c :: text) = c.utf8Size + byteLength text := by
  rw [byteLength, List.flatMap_cons, List.length_append, String.length_utf8EncodeChar]
  rfl

theorem byteLength_reverse (text : List Char) : byteLength text.reverse = byteLength text := by
  have append (left right : List Char) :
      byteLength (left ++ right) = byteLength left + byteLength right := by
    rw [byteLength, List.flatMap_append, List.length_append]
    rfl
  induction text with
  | nil => rfl
  | cons c rest ih =>
    rw [List.reverse_cons, append, ih, byteLength_cons, byteLength_cons]
    exact Nat.add_comm ..

theorem byteLength_of_foldlM {start : Nat}
    (h : digits.foldlM (fun value digit => (hexDigit? digit).map (value * 16 + ·)) start =
      some unit) : byteLength digits = digits.length := by
  induction digits generalizing start with
  | nil => rfl
  | cons c rest ih =>
    rw [List.foldlM_cons, Option.bind_eq_bind, Option.bind_eq_some_iff] at h
    obtain ⟨value, digit, others⟩ := h
    obtain ⟨number, single, -⟩ := Option.map_eq_some_iff.mp digit
    rw [byteLength_cons, utf8Size_of_hexDigit? single, ih others, List.length_cons, Nat.add_comm]

/-- Hexadecimal digits are characters of one byte. -/
theorem byteLength_of_hexValue? (h : hexValue? digits = some unit) :
    byteLength digits = digits.length := byteLength_of_foldlM h

theorem hexValue?_front {front back : List Char} (h : hexValue? (front ++ back) = some unit) :
    ∃ value, hexValue? front = some value := by
  rw [hexValue?, List.foldlM_append, Option.bind_eq_bind, Option.bind_eq_some_iff] at h
  obtain ⟨value, found, -⟩ := h
  exact ⟨value, found⟩

theorem acceptDigit_of_isUnit (short : (c :: latest).length = 4)
    (value : hexValue? (c :: latest).reverse = some unit) :
    reader.acceptDigit c high? latest = reader.acceptUnit c high? unit := by
  have bytes : byteLength (c :: latest) = 4 := by
    rw [← byteLength_reverse, byteLength_of_hexValue? value, List.length_reverse, short]
  simp only [acceptDigit, bytes, if_neg (Nat.lt_irrefl 4), value]

/-- Four digits are taken one after another, then their value is judged. -/
theorem foldlM_unit (mode : reader.mode = .digits high? latest) (short : latest.length < 4)
    (value : IsUnit (latest.reverse ++ digits) unit) :
    ∃ (last : Reader) (c : Char), last.text = reader.text ∧
      digits.foldlM step reader = last.acceptUnit c high? unit := by
  induction digits generalizing reader latest with
  | nil =>
    have four := value.1
    rw [List.append_nil, List.length_reverse] at four
    omega
  | cons c rest ih =>
    have stepped : reader.step c = reader.acceptDigit c high? latest := by simp only [step, mode]
    have moved : latest.reverse ++ c :: rest = (c :: latest).reverse ++ rest := by simp
    rw [moved] at value
    by_cases full : (c :: latest).length < 4
    · obtain ⟨front, found⟩ := hexValue?_front value.2
      have bytes : byteLength (c :: latest) < 4 := by
        rwa [← byteLength_reverse, byteLength_of_hexValue? found, List.length_reverse]
      have taken : reader.step c = .ok (reader.moveTo c (.digits high? (c :: latest))) := by
        rw [stepped, acceptDigit, if_pos bytes]
      rw [foldlM_step_cons taken]
      have next : (reader.moveTo c (.digits high? (c :: latest))).mode = .digits high? (c :: latest) :=
        rfl
      exact ih next full value
    · obtain ⟨four, all⟩ := value
      have last : rest = [] := by
        rw [← List.length_eq_zero_iff]
        rw [List.length_append, List.length_reverse] at four
        omega
      subst last
      rw [List.append_nil, List.length_reverse] at four
      rw [List.append_nil] at all
      refine ⟨reader, c, rfl, ?_⟩
      rw [List.foldlM_cons, stepped, acceptDigit_of_isUnit four all]
      exact bind_pure _

theorem adds_unit (value : IsUnit digits unit) (low : isLowSurrogate unit = false)
    (high : isHighSurrogate unit = false) :
    Adds ('\\' :: 'u' :: digits) [Char.ofNat unit] := by
  intro reader plain
  let opened := (reader.moveTo '\\' .escape).moveTo 'u' (.digits none [])
  obtain ⟨last, c, same, judged⟩ :=
    foldlM_unit (rfl : opened.mode = .digits none []) (by decide) value
  refine ⟨last.emit c (Char.ofNat unit), ?_, rfl, ?_⟩
  · rw [foldlM_step_cons (step_backslash plain), foldlM_step_cons rfl]
    simp [opened, judged, acceptUnit, low, high]
  · rw [text_emit, same]
    rfl

/-- The two digits of a control character stand after two zeros. -/
theorem hexValue?_control : ∀ value < 32,
    hexValue? ['0', '0', hexCharacter (value / 16), hexCharacter value] = some value := by
  decide

theorem adds_unicode (control : c < ' ') :
    Adds ['\\', 'u', '0', '0', hexCharacter (c.toNat / 16), hexCharacter c.toNat] [c] := by
  have bound : c.toNat < 32 := control
  have low : isLowSurrogate c.toNat = false := by simp [isLowSurrogate]; omega
  have high : isHighSurrogate c.toNat = false := by simp [isHighSurrogate]; omega
  have adds := adds_unit ⟨rfl, hexValue?_control c.toNat bound⟩ low high
  rwa [Char.ofNat_toNat] at adds

/-- One of the characters with an escape of their own. -/
theorem adds_special {special letter : Char} (short : letter ≠ 'u')
    (found : escapeLetters.lookup letter = some special)
    (others : c ≠ special → Adds text [c]) :
    Adds (if c = special then ['\\', letter] else text) [c] := by
  split
  · rename_i same
    exact same ▸ adds_escape short found
  · rename_i apart
    exact others apart

theorem adds_encodeChar (c : Char) : Adds (encodeChar c) [c] := by
  refine adds_special (by decide) rfl fun quote => ?_
  refine adds_special (by decide) rfl fun backslash => ?_
  refine adds_special (by decide) rfl fun _ => ?_
  refine adds_special (by decide) rfl fun _ => ?_
  refine adds_special (by decide) rfl fun _ => ?_
  refine adds_special (by decide) rfl fun _ => ?_
  refine adds_special (by decide) rfl fun _ => ?_
  split
  · rename_i control
    exact adds_unicode control
  · rename_i control
    exact adds_plain quote backslash control

theorem adds_flatMap_encodeChar (text : List Char) : Adds (text.flatMap encodeChar) text := by
  induction text with
  | nil => exact adds_nil
  | cons c rest ih => exact (adds_encodeChar c).append ih

/-- Nothing opens the quotes again, and nothing is added behind them. -/
theorem closed_of_foldlM (closed : reader.mode = .closed)
    (h : text.foldlM step reader = .ok next) :
    next.mode = .closed ∧ (∀ c ∈ text, MayFollow c) ∧ next.text = reader.text := by
  induction text generalizing reader with
  | nil =>
    cases h
    exact ⟨closed, nofun, rfl⟩
  | cons c rest ih =>
    obtain ⟨middle, stepped, others⟩ := exists_of_foldlM_cons h
    simp only [step, closed] at stepped
    split at stepped
    · rename_i here
      cases stepped
      obtain ⟨still, later, same⟩ := ih rfl others
      exact ⟨still, List.forall_mem_cons.mpr ⟨here, later⟩, same⟩
    · cases stepped

end Reader

theorem hexCharacter_visible (value : Nat) : ¬hexCharacter value < ' ' := by
  have digits : ∀ digit < 16, ¬hexDigits.getD digit '0' < ' ' := by decide
  exact digits _ (Nat.mod_lt value (by decide))

theorem encodeChar_visible (c : Char) : ∀ d ∈ encodeChar c, ¬d < ' ' := by
  have visible : ((encodeChar c).all fun d => !decide (d < ' ')) = true := by
    unfold encodeChar
    split_ifs with quote backslash backspace feed line ret tab control
    any_goals rfl
    · have first := hexCharacter_visible (c.toNat / 16)
      have second := hexCharacter_visible c.toNat
      simp only [List.all_cons, List.all_nil, decide_eq_false first, decide_eq_false second]
      rfl
    · simp only [List.all_cons, List.all_nil, decide_eq_false control]
      rfl
  intro d member
  have here := List.all_eq_true.mp visible d member
  rw [Bool.not_eq_true'] at here
  exact of_decide_eq_false here

/-- What is written in quotes has no control characters. -/
theorem write_visible (text : List Char) : ∀ c ∈ write text, ¬c < ' ' := by
  have inside : ∀ c ∈ text.flatMap encodeChar, ¬c < ' ' := by
    intro c member
    obtain ⟨source, -, encoded⟩ := List.mem_flatMap.mp member
    exact encodeChar_visible source c encoded
  have quote : ¬ '"' < ' ' := by decide
  exact List.forall_mem_append.mpr
    ⟨List.forall_mem_cons.mpr ⟨quote, inside⟩, List.forall_mem_singleton.mpr quote⟩

theorem read_write (text : List Char) : read (write text) = .ok text := by
  obtain ⟨last, inside, plain, decoded⟩ := Reader.adds_flatMap_encodeChar text Reader.start rfl
  have quote : last.step '"' = .ok (last.moveTo '"' .closed) := by simp [Reader.step, plain]
  have run : ((write text).drop 1).foldlM Reader.step Reader.start =
      .ok (last.moveTo '"' .closed) := by
    change (text.flatMap encodeChar ++ ['"']).foldlM Reader.step Reader.start = _
    rw [List.foldlM_append, inside]
    exact Reader.foldlM_step_cons quote []
  rw [read, run]
  exact congrArg Except.ok decoded

end QueryContract.Text.Quoted
