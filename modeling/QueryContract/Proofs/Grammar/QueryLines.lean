import QueryContract.Proofs.Grammar.OwnLines
import QueryContract.Proofs.Text.Joining
import QueryContract.Proofs.Text.Pieces

/-!
Which lines of a text are lines of a query, told by the text alone, and that reading a line finds
them without what is blank at their ends.
-/

namespace QueryContract

namespace Text

/-- A line that is neither blank nor a comment. -/
def isQueryText (line : List Char) : Bool :=
  !(trim line).isEmpty && !Line.commentMark.isPrefixOf (trim line)

theorem isQueryText_trimEnd (line : List Char) : isQueryText (trimEnd line) = isQueryText line := by
  rw [isQueryText, trim_trimEnd]
  rfl

theorem ne_nil_of_isQueryText {line : List Char} (h : isQueryText line = true) : line ≠ [] := by
  rintro rfl
  cases h

end Text

open Text

namespace Line

def query? : Line → Option (List Char)
  | .query text => some text
  | _ => none

/-- What a line adds to a query that has begun. -/
def body? : Line → Option (List Char)
  | .query text | .comment text => some text
  | .directive _ => none

theorem isSome_query? (line : Line) : line.query?.isSome = line.isQuery := by
  cases line <;> rfl

theorem isComment_of_directiveMark {text body : List Char}
    (h : directiveMark.isPrefixOf? text = some body) : commentMark.isPrefixOf text = true := by
  have marked : text = directiveMark ++ body := by
    simpa [directiveMark, List.isPrefixOf?_eq_some_iff_append_eq, eq_comm] using h
  rw [marked]
  rfl

theorem ofText_cases (text : List Char) :
    (∃ directive, ofText text = .directive directive ∧ isQueryText text = false) ∨
      ofText text = .comment (trimEnd text) ∧ isQueryText text = false ∨
        ofText text = .query (trimEnd text) ∧ isQueryText text = true := by
  unfold ofText isQueryText
  dsimp only
  split
  · rename_i body marked
    exact .inl ⟨_, rfl, by rw [isComment_of_directiveMark marked, Bool.not_true, Bool.and_false]⟩
  · split
    · rename_i ignored
      refine .inr (.inl ⟨rfl, ?_⟩)
      rw [← Bool.not_or, ignored]
      rfl
    · rename_i kept
      refine .inr (.inr ⟨rfl, ?_⟩)
      rw [← Bool.not_or, Bool.eq_false_iff.mpr kept]
      rfl

theorem ofText_of_isQueryText {text : List Char} (query : isQueryText text = true) :
    ofText text = .query (trimEnd text) := by
  rcases ofText_cases text with ⟨_, -, other⟩ | ⟨-, other⟩ | ⟨read, -⟩
  · rw [query] at other
    cases other
  · rw [query] at other
    cases other
  · exact read

theorem query?_ofText (text : List Char) :
    (ofText text).query? = if isQueryText text then some (trimEnd text) else none := by
  rcases ofText_cases text with ⟨directive, read, plain⟩ | ⟨read, plain⟩ | ⟨read, query⟩
  · rw [read, plain]
    rfl
  · rw [read, plain]
    rfl
  · rw [read, query]
    rfl

theorem filterMap_query?_map_ofText (texts : List (List Char)) :
    (texts.map ofText).filterMap query? = (texts.filter isQueryText).map trimEnd := by
  induction texts with
  | nil => rfl
  | cons text rest ih =>
    rw [List.map_cons, List.filterMap_cons, query?_ofText, List.filter_cons, ih]
    cases isQueryText text <;> rfl

theorem trimEnd_of_mem_body?_ofText {row text : List Char} (h : text ∈ (ofText row).body?) :
    text = trimEnd row ∧ isQueryText row = (ofText row).isQuery := by
  rcases ofText_cases row with ⟨directive, read, -⟩ | ⟨read, plain⟩ | ⟨read, query⟩
  · rw [read] at h
    cases h
  · rw [read] at h ⊢
    cases h
    exact ⟨rfl, plain⟩
  · rw [read] at h ⊢
    cases h
    exact ⟨rfl, query⟩

theorem isQueryText_of_mem_body?_ofText {row text : List Char} (h : text ∈ (ofText row).body?) :
    isQueryText text = (ofText row).isQuery := by
  obtain ⟨rfl, query⟩ := trimEnd_of_mem_body?_ofText h
  rw [isQueryText_trimEnd, query]

/-- What the line may add to a query stands on one line, is trimmed at its end, and is query text
    just if the line is a line of a query. -/
structure Sound (line : Line) : Prop where
  unbroken : ∀ text ∈ line.body?, '\n' ∉ text
  trimmed : ∀ text ∈ line.body?, trimEnd text = text
  query : ∀ text ∈ line.body?, isQueryText text = line.isQuery

theorem sound_ofText {text : List Char} (unbroken : '\n' ∉ text) : (ofText text).Sound where
  unbroken body member := by
    rw [(trimEnd_of_mem_body?_ofText member).1]
    exact fun inside => unbroken ((List.rdropWhile_prefix isBlank text).subset inside)
  trimmed body member := by
    rw [(trimEnd_of_mem_body?_ofText member).1]
    exact trimEnd_trimEnd text
  query body member := isQueryText_of_mem_body?_ofText member

end Line

namespace Document

/-- The lines of a text are what stands between its line feeds, but for a blank end. -/
theorem linesOf_eq_or (text : String) :
    (text.toList.splitOn '\n').map Line.ofText = linesOf text ∨
      (text.toList.splitOn '\n').map Line.ofText = linesOf text ++ [.comment []] := by
  rw [linesOf, lines]
  cases text.toList.splitOn '\n' with
  | nil => exact .inl rfl
  | cons first rest => exact Line.map_ofText_terminated first rest

theorem sound_of_mem_linesOf {text : String} {line : Line} (h : line ∈ linesOf text) :
    line.Sound := by
  have found : line ∈ (text.toList.splitOn '\n').map Line.ofText := by
    rcases linesOf_eq_or text with same | same
    · rwa [same]
    · rw [same]
      exact List.mem_append_left _ h
  obtain ⟨piece, member, rfl⟩ := List.mem_map.mp found
  exact Line.sound_ofText fun broken => (mem_of_mem_splitOn member broken).2 rfl

theorem filterMap_query?_linesOf (text : String) :
    (linesOf text).filterMap Line.query? =
      ((text.toList.splitOn '\n').filter isQueryText).map trimEnd := by
  rw [← Line.filterMap_query?_map_ofText]
  rcases linesOf_eq_or text with same | same
  · rw [same]
  · rw [same, List.filterMap_append]
    exact (List.append_nil _).symm

end Document

end QueryContract
