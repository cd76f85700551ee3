import QueryContract.Proofs.Artifact.Containment

/-!
Comments of a generated file. A comment begins and ends with lines of its own, and no line between
them ends it, whatever text of a declaration it takes over.
-/

namespace QueryContract.Artifact

open Marked (fixed mark opener closer)

theorem unbraced_mark {kind : Mark} (hk : kind.isBrace = false) (chars : List Char) :
    Unbraced (mark kind chars) := by
  intro pair member
  obtain ⟨c, -, rfl⟩ := List.mem_map.mp member
  exact hk

theorem unbraced_fixed (text : String) : Unbraced (fixed text) := unbraced_mark rfl _

theorem Unbraced.append {left right : Marked} (hl : Unbraced left) (hr : Unbraced right) :
    Unbraced (left ++ right) := List.forall_mem_append.mpr ⟨hl, hr⟩

theorem Unbraced.guard {line : Marked} (h : Unbraced line) : Unbraced line.guard := by
  induction line with
  | nil => exact h
  | cons first rest ih =>
    obtain ⟨c, kind⟩ := first
    obtain ⟨head, tail⟩ := List.forall_mem_cons.mp h
    have later := ih tail
    rw [Marked.guard]
    split
    · exact List.forall_mem_cons.mpr ⟨head, List.forall_mem_cons.mpr ⟨head, later⟩⟩
    · exact List.forall_mem_cons.mpr ⟨head, later⟩

theorem unbraced_descriptionLines {doc : Option Description} {line : Marked}
    (h : line ∈ Marked.descriptionLines doc) : Unbraced line := by
  have blank : Unbraced [] := fun _ member => nomatch member
  cases doc with
  | none => cases h
  | some doc =>
    simp only [Marked.descriptionLines, List.mem_append, List.mem_cons, List.not_mem_nil, or_false,
      List.mem_map] at h
    rcases h with ((rfl | rfl) | ⟨chars, -, rfl⟩) | rfl
    · exact ((unbraced_fixed _).append (unbraced_mark rfl _)).append (unbraced_fixed _)
    · exact blank
    · exact unbraced_mark rfl chars
    · exact blank

theorem unbraced_documentation {operation : Operation} {line : Marked}
    (h : line ∈ Marked.documentation operation) : Unbraced line := by
  simp only [Marked.documentation, List.mem_append, List.mem_map, List.mem_singleton] at h
  rcases h with (((described | rfl) | ⟨origin, -, rfl⟩) | ⟨parameter, -, rfl⟩) | rfl
  · exact unbraced_descriptionLines described
  · exact unbraced_fixed _
  · exact ((unbraced_fixed _).append (unbraced_mark rfl _)).append (unbraced_fixed _)
  · exact unbraced_fixed _
  · exact unbraced_fixed _

/-- A line of a comment: it leaves the comment open. -/
def StaysInComment (line : Marked) : Prop :=
  ∃ star, Contained (.comment false) line (.comment star)

def Slashless (marked : Marked) : Prop := ∀ pair ∈ marked, pair.2.isBrace = false ∧ pair.1 ≠ '/'

theorem slashless_mark {kind : Mark} (hk : kind.isBrace = false) {chars : List Char}
    (h : ∀ c ∈ chars, c ≠ '/') : Slashless (mark kind chars) := by
  intro pair member
  obtain ⟨c, found, rfl⟩ := List.mem_map.mp member
  exact ⟨hk, h c found⟩

theorem Plain.slashless {text : String} (h : Plain text) : Slashless (fixed text) := by
  apply slashless_mark rfl
  intro c member slash
  have plain := h c member
  rw [slash] at plain
  cases plain

theorem Slashless.append {left right : Marked} (hl : Slashless left) (hr : Slashless right) :
    Slashless (left ++ right) := List.forall_mem_append.mpr ⟨hl, hr⟩

theorem Slashless.intercalate {separator : Marked} {parts : List Marked} (hs : Slashless separator)
    (h : ∀ part ∈ parts, Slashless part) : Slashless (separator.intercalate parts) := by
  intro pair member
  rcases Text.mem_or_exists_of_mem_intercalate member with between | ⟨part, found, inPart⟩
  · exact hs pair between
  · exact h part found pair inPart

theorem Slashless.staysInComment {marked : Marked} (h : Slashless marked) :
    StaysInComment marked := by
  have unbraced : Unbraced marked := fun pair member => (h pair member).1
  refine contained_comment unbraced (quiet_of_forall_ne ?_ false)
  intro c member
  obtain ⟨pair, found, rfl⟩ := List.mem_map.mp member
  exact (h pair found).2

theorem staysInComment_commentLine {indent : String} (hi : Plain indent) {line : Marked}
    (h : Unbraced line) : StaysInComment (Marked.commentLine indent line) := by
  have start : Plain (indent ++ " *") := hi.append (by decide)
  obtain ⟨star, front⟩ := start.slashless.staysInComment
  rw [Marked.commentLine]
  split
  · exact ⟨star, front⟩
  · have blank : fixed (indent ++ " * ") = fixed (indent ++ " *") ++ mark .fixed [' '] := by
      rw [fixed_append, fixed_append, List.append_assoc]
      rfl
    -- the blank keeps the star of the line from a slash at the start of the text
    have parted := contained_comment_reset star (c := ' ') (by decide) (by decide)
    have quiet : Quiet false line.guard.text := by
      rw [Marked.text_guard]
      apply quiet_guardComment
      rintro ⟨starred, -⟩
      cases starred
    obtain ⟨last, guarded⟩ := contained_comment h.guard quiet
    rw [blank]
    exact ⟨last, (front.append parted).append guarded⟩

theorem contained_opener : Contained (.code true) opener (.comment false) := by
  have agrees : Agrees (.code true) '*' .opening :=
    { input := nofun
      opening := iff_of_true ⟨rfl, rfl⟩ rfl
      closing := iff_of_false (fun closes => nomatch closes.1) nofun
      dollar := nofun }
  exact contained_char agrees rfl

theorem contained_closer : Contained (.comment true) closer (.code false) := by
  have agrees : Agrees (.comment true) '/' .closing :=
    { input := nofun
      opening := iff_of_false (fun opens => nomatch opens.1) nofun
      closing := iff_of_true ⟨rfl, rfl⟩ rfl
      dollar := nofun }
  exact contained_char agrees rfl

/-- The slash that a star is to follow. -/
theorem contained_slash : Contained (.code false) (fixed "/") (.code true) :=
  contained_char (agrees_code (by decide)) rfl

theorem contained_star : Contained (.comment false) (fixed "*") (.comment true) :=
  contained_char (agrees_outside rfl rfl (fun closes => nomatch closes.1) nofun) rfl

theorem contained_openingLine {indent : String} (hi : Plain indent) :
    Contained (.code false) (fixed (indent ++ "/") ++ opener ++ fixed "*") (.comment true) := by
  have slash := (contained_plain hi).append contained_slash
  rw [fixed_append]
  exact (slash.append contained_opener).append contained_star

theorem contained_closingLine {indent : String} (hi : Plain indent) :
    Contained (.comment false) (fixed (indent ++ " *") ++ closer) (.code false) := by
  obtain ⟨star, front⟩ := hi.slashless.staysInComment
  have stars : fixed " *" = mark .fixed [' '] ++ fixed "*" := rfl
  have blank := contained_comment_reset star (c := ' ') (by decide) (by decide)
  rw [fixed_append, stars]
  exact (front.append (blank.append contained_star)).append contained_closer

section Lines

variable {style : Style} {first next last : Mode} {lines others : List Marked}

def ended (style : Style) (lines : List Marked) : Marked :=
  (lines.map (· ++ fixed style.lineBreak.text)).flatten

theorem ended_append (style : Style) (lines others : List Marked) :
    ended style (lines ++ others) = ended style lines ++ ended style others := by
  rw [ended, List.map_append, List.flatten_append]
  rfl

theorem contained_ended_append (h : Contained first (ended style lines) next)
    (h' : Contained next (ended style others) last) :
    Contained first (ended style (lines ++ others)) last := by
  rw [ended_append]
  exact h.append h'

theorem contained_break_code (style : Style) : StaysInCode (fixed style.lineBreak.text) := by
  cases style.lineBreak <;> exact contained_plain (by decide)

theorem contained_break_comment (style : Style) (star : Bool) :
    Contained (.comment star) (fixed style.lineBreak.text) (.comment false) := by
  have feed (star : Bool) : Contained (.comment star) (mark .fixed ['\n']) (.comment false) :=
    contained_comment_reset star (by decide) (by decide)
  cases style.lineBreak with
  | lf => exact feed star
  | crlf => exact (contained_comment_reset star (by decide) (by decide)).append (feed false)

theorem contained_codeLines (style : Style)
    (h : ∀ line ∈ lines, StaysInCode line) : StaysInCode (ended style lines) := by
  apply Contained.flatten
  intro part member
  obtain ⟨line, found, rfl⟩ := List.mem_map.mp member
  exact (h line found).append (contained_break_code style)

theorem contained_commentLines (style : Style)
    (h : ∀ line ∈ lines, StaysInComment line) :
    Contained (.comment false) (ended style lines) (.comment false) := by
  apply Contained.flatten
  intro part member
  obtain ⟨line, found, rfl⟩ := List.mem_map.mp member
  obtain ⟨star, contained⟩ := h line found
  exact contained.append (contained_break_comment style star)

theorem contained_block (style : Style) {front back : Marked}
    (hf : ∃ star, Contained (.code false) front (.comment star))
    (h : ∀ line ∈ lines, StaysInComment line)
    (hb : Contained (.comment false) back (.code false)) :
    StaysInCode (ended style ([front] ++ lines ++ [back])) := by
  obtain ⟨star, opened⟩ := hf
  have single (line : Marked) : ended style [line] = line ++ fixed style.lineBreak.text :=
    List.append_nil _
  have opening : Contained (.code false) (ended style [front]) (.comment false) := by
    rw [single]
    exact opened.append (contained_break_comment style star)
  have closing : Contained (.comment false) (ended style [back]) (.code false) := by
    rw [single]
    exact hb.append (contained_break_code style)
  exact contained_ended_append (contained_ended_append opening (contained_commentLines style h))
    closing

end Lines

end QueryContract.Artifact
