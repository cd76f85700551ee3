import QueryContract.Proofs.Artifact.Comments

/-!
What a scan of generated PHP keeps: comments are left out, and each character that is kept is told to
be code or to stand in a string. Of a comment only the two signs that open it are kept.
-/

namespace QueryContract.Artifact

open Marked (fixed mark opener closer)

namespace Mode

def isComment : Mode → Bool
  | comment _ => true
  | _ => false

theorem scan_append (mode : Mode) (left right : List Char) :
    mode.scan (left ++ right) = (mode.scan left).scan right := List.foldl_append

/-- A comment follows code alone, so a string is left for code or not at all. -/
theorem isComment_step {mode : Mode} (outside : mode.isComment = false) (string : mode.isCode = false)
    (c : Char) : (mode.step c).isComment = false := by
  cases mode with
  | code slash => cases string
  | comment star => cases outside
  | single escaped =>
    rw [step]
    repeat' split
    all_goals rfl
  | double escaped =>
    rw [step]
    repeat' split
    all_goals rfl

end Mode

/-- A character that is kept, with whether it is code. -/
abbrev Glyph := Char × Bool

def glyphs : Mode → List Char → List Glyph
  | _, [] => []
  | mode, c :: rest =>
    if mode.isComment then glyphs (mode.step c) rest
    else (c, mode.isCode) :: glyphs (mode.step c) rest

theorem glyphs_append (mode : Mode) (left right : List Char) :
    glyphs mode (left ++ right) = glyphs mode left ++ glyphs (mode.scan left) right := by
  induction left generalizing mode with
  | nil => rfl
  | cons c rest ih =>
    have later := ih (mode.step c)
    rw [List.cons_append, glyphs, glyphs, later]
    split <;> rfl

def skim (text : List Char) : List Glyph := glyphs (.code false) text

/-- Characters that are all code. -/
def coded (text : List Char) : List Glyph := text.map (·, true)

theorem skim_append {text : List Char} (closed : Mode.scan (.code false) text = .code false)
    (rest : List Char) : skim (text ++ rest) = skim text ++ skim rest := by
  rw [skim, glyphs_append, closed]
  rfl

theorem skim_cons (c : Char) (rest : List Char) :
    skim (c :: rest) = (c, true) :: glyphs ((Mode.code false).step c) rest := rfl

section Plain

variable {text : List Char}

theorem scan_plain (plain : ∀ c ∈ text, isPlain c = true) :
    Mode.scan (.code false) text = .code false := by
  rw [← Marked.text_mark .fixed text]
  exact (contained_code plain).scan_eq

theorem skim_plain (plain : ∀ c ∈ text, isPlain c = true) : skim text = coded text := by
  induction text with
  | nil => rfl
  | cons c rest ih =>
    obtain ⟨first, later⟩ := List.forall_mem_cons.mp plain
    have stays : Mode.scan (.code false) [c] = .code false :=
      scan_plain (List.forall_mem_singleton.mpr first)
    rw [← List.singleton_append, skim_append stays, ih later]
    rfl

end Plain

/-- Foreign text that does not begin in a comment stands in a string. -/
theorem glyphs_string {source : Source} {text : List Char} {mode last : Mode}
    (outside : mode.isComment = false) (h : Contained mode (mark (.input source) text) last) :
    glyphs mode text = text.map (·, false) := by
  induction text generalizing mode with
  | nil => rfl
  | cons c rest ih =>
    cases h with
    | cons agrees later =>
      have string : mode.isCode = false := agrees.input source rfl
      have kept := ih (Mode.isComment_step outside string c) later
      rw [glyphs, outside, string, kept]
      rfl

/-- Between marks that open and close a comment nothing is kept of a comment. -/
theorem glyphs_comment {first last : Mode} {marked : Marked} (h : Contained first marked last)
    (unbraced : Unbraced marked) (comment : first.isComment = true) :
    glyphs first marked.text = [] := by
  induction h with
  | nil mode => rfl
  | @cons mode last c kind rest agrees _ ih =>
    obtain ⟨brace, others⟩ := List.forall_mem_cons.mp unbraced
    have unclosed : ¬mode.closes c := fun closes =>
      (Mark.ne_of_isBrace brace).2 (agrees.closing.mp closes)
    have stays : (mode.step c).isComment = true := by
      cases mode with
      | comment star =>
        have open' : ¬(star = true ∧ c = '/') := fun both => unclosed ⟨by rw [both.1], both.2⟩
        rw [Mode.step, if_neg open']
        rfl
      | _ => cases comment
    have text : Marked.text ((c, kind) :: rest) = c :: Marked.text rest := rfl
    rw [text, glyphs, if_pos comment]
    exact ih others stays

/-- The text leaves code as code, and none of these characters is in the code of it. -/
structure Avoids (avoided : List Char) (text : List Char) : Prop where
  closed : Mode.scan (.code false) text = .code false
  apart : ∀ c ∈ avoided, (c, true) ∉ skim text

section Avoids

variable {avoided fewer text : List Char}

theorem avoids_nil (avoided : List Char) : Avoids avoided [] := ⟨rfl, fun _ _ => List.not_mem_nil⟩

theorem Avoids.append {left right : List Char} (hl : Avoids avoided left)
    (hr : Avoids avoided right) : Avoids avoided (left ++ right) where
  closed := by rw [Mode.scan_append, hl.closed, hr.closed]
  apart c member := by
    rw [skim_append hl.closed, List.mem_append, not_or]
    exact ⟨hl.apart c member, hr.apart c member⟩

theorem Avoids.mono (h : Avoids avoided text) (subset : fewer ⊆ avoided) : Avoids fewer text :=
  ⟨h.closed, fun c member => h.apart c (subset member)⟩

theorem Avoids.flatten {parts : List (List Char)} (h : ∀ part ∈ parts, Avoids avoided part) :
    Avoids avoided parts.flatten := by
  induction parts with
  | nil => exact avoids_nil avoided
  | cons part rest ih =>
    obtain ⟨first, later⟩ := List.forall_mem_cons.mp h
    exact first.append (ih later)

theorem Avoids.intercalate {separator : List Char} {parts : List (List Char)}
    (hs : Avoids avoided separator) (h : ∀ part ∈ parts, Avoids avoided part) :
    Avoids avoided (separator.intercalate parts) := by
  apply Avoids.flatten
  intro part member
  rcases Text.eq_or_mem_of_mem_intersperse member with rfl | member
  · exact hs
  · exact h part member

/-- Nothing but code, and none of these characters. -/
def isClear (avoided : List Char) (text : String) : Bool :=
  text.toList.all fun c => isPlain c && !avoided.contains c

theorem plain_of_isClear {text : String} (h : isClear avoided text = true) : Plain text :=
  fun c member => (Bool.and_eq_true_iff.mp (List.all_eq_true.mp h c member)).1

theorem avoids_of_isClear {text : String} (h : isClear avoided text = true) :
    Avoids avoided text.toList where
  closed := scan_plain (plain_of_isClear h)
  apart c member found := by
    rw [skim_plain (plain_of_isClear h)] at found
    obtain ⟨other, held, same⟩ := List.mem_map.mp found
    cases same
    have clear := (Bool.and_eq_true_iff.mp (List.all_eq_true.mp h c held)).2
    simp [member] at clear

/-- Between two quotes there is no code. -/
theorem skim_quoted {source : Source} {quote : Char} {text : List Char} {mode : Mode}
    (opens : (Mode.code false).step quote = mode) (outside : mode.isComment = false)
    (string : mode.isCode = false) (h : Contained mode (mark (.input source) text) mode)
    (closes : mode.step quote = .code false) :
    Mode.scan (.code false) (quote :: (text ++ [quote])) = .code false ∧
      skim (quote :: (text ++ [quote])) =
        (quote, true) :: (text ++ [quote]).map (·, false) := by
  have inside : mode.scan text = mode := by
    rw [← Marked.text_mark (.input source) text]
    exact h.scan_eq
  constructor
  · change ((Mode.code false).step quote).scan (text ++ [quote]) = _
    rw [opens, Mode.scan_append, inside]
    exact closes
  · have last : glyphs mode [quote] = [(quote, false)] := by
      rw [glyphs, outside, string]
      rfl
    rw [skim_cons, opens, glyphs_append, inside, glyphs_string outside h, last, List.map_append]
    rfl

theorem avoids_quoted {source : Source} {quote : Char} {text : List Char} {mode : Mode}
    (opens : (Mode.code false).step quote = mode) (outside : mode.isComment = false)
    (string : mode.isCode = false) (h : Contained mode (mark (.input source) text) mode)
    (closes : mode.step quote = .code false) (apart : quote ∉ avoided) :
    Avoids avoided (quote :: (text ++ [quote])) := by
  obtain ⟨closed, kept⟩ := skim_quoted opens outside string h closes
  refine ⟨closed, fun c member found => ?_⟩
  rw [kept] at found
  rcases List.mem_cons.mp found with same | later
  · cases same
    exact apart member
  · obtain ⟨other, -, same⟩ := List.mem_map.mp later
    cases same

end Avoids

def blanks : List Char := [' ', '\t', '\n', '\r']

def fillers : List Char := blanks ++ ['/', '*']

/-- A blank, or a sign that a comment leaves behind. -/
def isFiller (glyph : Glyph) : Bool := glyph.2 && fillers.contains glyph.1

/-- Fillers and nothing else. -/
def IsGap (text : List Glyph) : Prop := ∀ glyph ∈ text, isFiller glyph = true

theorem isGap_nil : IsGap [] := List.forall_mem_nil _

theorem IsGap.append {left right : List Glyph} (hl : IsGap left) (hr : IsGap right) :
    IsGap (left ++ right) := List.forall_mem_append.mpr ⟨hl, hr⟩

/-- From one mode to the other nothing but fillers is kept of the text. -/
structure Fills (first : Mode) (text : List Char) (last : Mode) : Prop where
  scan : first.scan text = last
  gap : IsGap (glyphs first text)

namespace Fills

variable {first middle last : Mode} {text other : List Char}

theorem of_all (scan : first.scan text = last)
    (fillers : (glyphs first text).all isFiller = true) : Fills first text last :=
  ⟨scan, List.all_eq_true.mp fillers⟩

theorem append (h : Fills first text middle) (h' : Fills middle other last) :
    Fills first (text ++ other) last where
  scan := by rw [Mode.scan_append, h.scan, h'.scan]
  gap := by
    rw [glyphs_append, h.scan]
    exact h.gap.append h'.gap

theorem avoids {avoided : List Char} (h : Fills (.code false) text (.code false))
    (apart : (avoided.all fun c => !Artifact.fillers.contains c) = true) :
    Avoids avoided text where
  closed := h.scan
  apart c member found := by
    have filler := h.gap _ found
    have solid := List.all_eq_true.mp apart c member
    simp [isFiller] at filler
    simp [filler] at solid

end Fills

theorem fills_blank {text : String} (blank : text.toList.all blanks.contains = true) :
    Fills (.code false) text.toList (.code false) := by
  have held : ∀ c ∈ text.toList, c ∈ blanks := fun c member =>
    List.contains_iff_mem.mp (List.all_eq_true.mp blank c member)
  have plain : Plain text := fun c member =>
    List.all_eq_true.mp (by decide : blanks.all isPlain = true) c (held c member)
  refine ⟨scan_plain plain, fun glyph member => ?_⟩
  change glyph ∈ skim text.toList at member
  rw [skim_plain plain] at member
  obtain ⟨c, found, rfl⟩ := List.mem_map.mp member
  exact List.all_eq_true.mp (by decide : (blanks.all fun c => isFiller (c, true)) = true) c
    (held c found)

theorem fills_comment {first last : Mode} {marked : Marked} (h : Contained first marked last)
    (unbraced : Unbraced marked) (comment : first.isComment = true) :
    Fills first marked.text last := by
  refine ⟨h.scan_eq, ?_⟩
  rw [glyphs_comment h unbraced comment]
  exact isGap_nil

theorem fills_indentation (indentation : Indentation) :
    Fills (.code false) indentation.text.toList (.code false) := by
  apply fills_blank
  cases indentation with
  | tab => decide
  | spaces width =>
    rw [Indentation.text, String.toList_ofList, List.all_eq_true]
    intro c member
    rw [List.eq_of_mem_replicate member]
    decide

section Lines

variable {style : Style} {lines : List Marked}

theorem fills_break (style : Style) :
    Fills (.code false) style.lineBreak.text.toList (.code false) := by
  cases style.lineBreak <;> exact fills_blank (by decide)

theorem text_ended_singleton (style : Style) (line : Marked) :
    (ended style [line]).text = line.text ++ style.lineBreak.text.toList := by
  simp [ended]

theorem text_ended_append (style : Style) (lines others : List Marked) :
    (ended style (lines ++ others)).text = (ended style lines).text ++ (ended style others).text := by
  rw [ended_append, Marked.text_append]

theorem Unbraced.ended (h : ∀ line ∈ lines, Unbraced line) : Unbraced (ended style lines) := by
  intro pair member
  obtain ⟨part, found, inside⟩ := List.mem_flatten.mp member
  obtain ⟨line, held, rfl⟩ := List.mem_map.mp found
  exact (h line held).append (unbraced_fixed _) pair inside

theorem Unbraced.commentLine {line : Marked} (h : Unbraced line) (indent : String) :
    Unbraced (Marked.commentLine indent line) := by
  unfold Marked.commentLine
  split
  · exact unbraced_fixed _
  · exact (unbraced_fixed _).append h.guard

/-- A comment with lines of its own leaves no more than the signs that open it. -/
theorem fills_block (style : Style) {front back : Marked}
    (hf : ∃ star, Fills (.code false) front.text (.comment star))
    (h : ∀ line ∈ lines, StaysInComment line ∧ Unbraced line)
    (hb : Fills (.comment false) back.text (.code false)) :
    Fills (.code false) (ended style ([front] ++ lines ++ [back])).text (.code false) := by
  obtain ⟨star, opened⟩ := hf
  have broken := fills_comment (contained_break_comment style star) (unbraced_fixed _) rfl
  have inside := fills_comment (contained_commentLines style fun line member => (h line member).1)
    (Unbraced.ended fun line member => (h line member).2) rfl
  rw [Marked.text_fixed] at broken
  rw [text_ended_append, text_ended_append, text_ended_singleton, text_ended_singleton]
  exact ((opened.append broken).append inside).append (hb.append (fills_break style))

end Lines

end QueryContract.Artifact
