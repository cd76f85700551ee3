import QueryContract.Proofs.Declaration.Reading
import QueryContract.Proofs.Grammar.Composition
import QueryContract.Proofs.Grammar.QueryLines
import QueryContract.Proofs.Grammar.Spacing

/-!
Quoted defaults. Any text can be the default of a string or a timestamp: what is written in quotes
has no line break and no blank at its ends, so it passes through the lines, the directive and its
parts unchanged, and it is never taken for one of the words that stand for something else.
-/

namespace QueryContract

namespace Text

theorem trim_cons_append {c : Char} (solid : isBlank c = false) (before : List Char)
    {last : List Char} (some : last ≠ []) (trimmed : trimEnd last = last) :
    trim (c :: (before ++ last)) = c :: (before ++ last) := by
  have start : trimStart (c :: (before ++ last)) = c :: before ++ last :=
    List.dropWhile_cons_of_neg (by simp [solid])
  rw [trim, start, trimEnd_append_of_ne_nil (c :: before) some trimmed]
  rfl

namespace Quoted

theorem trim_write (text : List Char) : trim (write text) = write text :=
  trim_cons_append (by decide) _ (List.cons_ne_nil _ _) (by decide)

theorem isLiteral_write (text : List Char) : IsLiteral (write text) text :=
  (read_eq_ok_iff rfl).mp (read_write text)

end Quoted

end Text

/-- The line of a variable with a default. -/
def variableLine (name type default : String) : String :=
  "-- #:" ++ name ++ " " ++ type ++ " " ++ default

def quotedDefault (text : String) : String := String.ofList (Text.Quoted.write text.toList)

/-- The type of a variable that is no list. -/
def plainType (nullable : Bool) (scalar : Scalar) : String :=
  (if nullable then "?" else "") ++ scalar.name

theorem typeText_plainType (nullable : Bool) (scalar : Scalar) :
    TypeText false nullable scalar (plainType nullable scalar).toList := by
  refine ⟨scalar.name.toList, by cases scalar <;> decide, ?_⟩
  rw [plainType, String.toList_append]
  cases nullable <;> rfl

theorem isBlank_plainType (nullable : Bool) (scalar : Scalar) :
    ∀ c ∈ (plainType nullable scalar).toList, Text.isBlank c = false := by
  have solid : ((plainType nullable scalar).toList.any Text.isBlank) = false := by
    cases nullable <;> cases scalar <;> decide
  intro c member
  exact Bool.eq_false_iff.mpr (List.any_eq_false.mp solid c member)

theorem plainType_ne_nil (nullable : Bool) (scalar : Scalar) :
    (plainType nullable scalar).toList ≠ [] := by
  cases nullable <;> cases scalar <;> decide

section Lines

variable {name default : String} (type : String)

def variableArgument (name type default : String) : List Char :=
  name.toList ++ [' '] ++ type.toList ++ ' ' :: default.toList

theorem toList_variableLine : (variableLine name type default).toList =
    Line.directiveMark ++ ':' :: variableArgument name type default := by
  simp [variableLine, variableArgument, Line.directiveMark, String.toList_append]

theorem trim_variableArgument (named : Text.isName name.toList = true)
    (some : default.toList ≠ []) (trimmed : Text.trim default.toList = default.toList) :
    Text.trim (variableArgument name type default) = variableArgument name type default ∧
      Text.trim (variableLine name type default).toList =
        (variableLine name type default).toList := by
  have ended : Text.trimEnd default.toList = default.toList := by
    rw [← trimmed, Text.trim, Text.trimEnd_trimEnd]
  constructor
  · cases start : name.toList with
    | nil =>
      rw [start] at named
      cases named
    | cons c rest =>
      rw [start] at named
      have solid := isBlank_eq_false_of_isName named c List.mem_cons_self
      have argument : variableArgument name type default =
          c :: (rest ++ ' ' :: type.toList ++ [' '] ++ default.toList) := by
        simp [variableArgument, start]
      rw [argument, Text.trim_cons_append solid _ some ended]
  · have line : (variableLine name type default).toList =
        '-' :: ("- #:".toList ++ name.toList ++ ' ' :: type.toList ++ [' '] ++ default.toList) := by
      simp [variableLine]
    rw [line, Text.trim_cons_append (by decide) _ some ended]

theorem Line.ofText_variableLine (named : Text.isName name.toList = true)
    (some : default.toList ≠ []) (trimmed : Text.trim default.toList = default.toList) :
    ofText (variableLine name type default).toList =
      .directive (.variable (variableArgument name type default)) := by
  obtain ⟨argument, line⟩ := trim_variableArgument type named some trimmed
  have marked : directiveMark <+: Text.trim (variableLine name type default).toList := by
    rw [line, toList_variableLine]
    exact List.prefix_append _ _
  obtain ⟨body, split, read⟩ := ofText_trim marked
  rw [line, toList_variableLine] at split
  rw [read, ← List.append_cancel_left split]
  change Line.directive (.variable (Text.trim (variableArgument name type default))) = _
  rw [argument]

theorem VariableLine.split?_variableArgument (named : Text.isName name.toList = true)
    (typed : type.toList ≠ []) (solid : ∀ c ∈ type.toList, Text.isBlank c = false)
    (some : default.toList ≠ []) (trimmed : Text.trim default.toList = default.toList) :
    split? (variableArgument name type default) =
      .some ⟨name.toList, type.toList, .some default.toList⟩ := by
  have tail : Text.trim (' ' :: default.toList) = default.toList := trimmed
  have written : (' ' :: default.toList).all Text.isBlank = false := by
    rw [← isEmpty_trim, tail, List.isEmpty_eq_false_iff]
    exact some
  have makesUp : MakesUp ⟨name.toList, type.toList, .some default.toList⟩ [' ']
      (' ' :: default.toList) (variableArgument name type default) :=
    { text_eq := rfl
      name := named
      gap_ne_nil := List.cons_ne_nil _ _
      gap_blank := List.forall_mem_singleton.mpr rfl
      type_ne_nil := typed
      type_solid := solid
      tail_blank := by
        rintro _ ⟨⟩
        decide
      default?_eq := by
        rw [written, tail]
        rfl }
  exact split?_of_makesUp makesUp

end Lines

theorem Declaration.read_quotedDefault {scalar : Scalar}
    (textual : scalar = .string ∨ scalar = .timestamp) (nullable : Bool) (text : String) :
    read (plainType nullable scalar).toList (some (quotedDefault text).toList) =
      .ok ⟨scalar, nullable, false, true, some (.string text)⟩ := by
  have literal : Text.Quoted.IsLiteral (quotedDefault text).toList text.toList := by
    rw [quotedDefault, String.toList_ofList]
    exact Text.Quoted.isLiteral_write text.toList
  have other : (quotedDefault text).toList ≠ "null".toList := by
    intro same
    have head := literal.head?
    rw [same] at head
    exact absurd head (by decide)
  have fits : Fallback.Fits scalar (quotedDefault text).toList (.string text) := by
    have decoded := Fallback.Fits.quoted textual literal
    rwa [String.ofList_toList] at decoded
  rw [read_of_typeText (typeText_plainType nullable scalar), withDefault,
    Fallback.read_eq_ok_iff.mpr (.inr ⟨other, fits⟩)]
  rfl

namespace Reader

variable {reader : Reader} {group : OpenGroup} {outer : List OpenGroup} {name : String}
  {scalar : Scalar}

/-- A group takes the line if it still accepts header lines and has no variable of the name. -/
theorem readLine_quotedDefault (path : Path) (number : Nat)
    (innermost : reader.groups = group :: outer) (noQuery : group.hasQuery = false)
    (leaf : group.isParent = false) (fresh : group.declarations.contains name = false)
    (named : Text.isName name.toList = true) (free : name ≠ "this")
    (textual : scalar = .string ∨ scalar = .timestamp) (nullable : Bool) (text : String) :
    reader.readLine path number (Line.ofText
        (variableLine name (plainType nullable scalar) (quotedDefault text)).toList) =
      .ok { reader with
        pastDirective := true
        groups :=
          { group with
            declarations := group.declarations.put name
              ⟨scalar, nullable, false, true, some (.string text)⟩ } :: outer } := by
  have written : (quotedDefault text).toList = Text.Quoted.write text.toList :=
    String.toList_ofList
  have some : (quotedDefault text).toList ≠ [] := by
    rw [written]
    exact List.cons_ne_nil _ _
  have trimmed : Text.trim (quotedDefault text).toList = (quotedDefault text).toList := by
    rw [written, Text.Quoted.trim_write]
  have parts := VariableLine.split?_variableArgument _ named (plainType_ne_nil nullable scalar)
    (isBlank_plainType nullable scalar) some trimmed
  have declared := Declaration.read_quotedDefault textual nullable text
  have reserved : ¬name = reservedName := free
  rw [Line.ofText_variableLine _ named some trimmed]
  simp [readLine, readDirective, addVariable, parts, reserved, declared, editHeader, innermost,
    noQuery, leaf, fresh, atLine]

end Reader

namespace Document

theorem unbroken_variableLine {name : String} (named : Text.isName name.toList = true)
    (nullable : Bool) (scalar : Scalar) (text : String) :
    '\n' ∉ (variableLine name (plainType nullable scalar) (quotedDefault text)).toList := by
  rw [toList_variableLine, variableArgument, quotedDefault, String.toList_ofList]
  simp only [List.mem_append, List.mem_cons, List.not_mem_nil, or_false, not_or]
  refine ⟨by decide, by decide, ⟨⟨fun member => ?_, by decide⟩, fun member => ?_⟩, by decide,
    fun member => ?_⟩
  · exact absurd (isBlank_eq_false_of_isName named _ member) (by decide)
  · exact absurd (isBlank_plainType nullable scalar _ member) (by decide)
  · exact Text.Quoted.write_visible text.toList _ member (by decide)

theorem linesOf_ended_closingLine {ending : String}
    (ended : ending = "" ∨ ∃ lineBreak : LineBreak, ending = lineBreak.text) :
    linesOf (closingLine ++ ending) = [.directive (.closing [])] := by
  rcases ended with empty | ⟨lineBreak, rfl⟩
  · exact linesOf_closingLine (.inl empty)
  · rw [linesOf_line (by decide)]
    decide +kernel

/-- Any text can be the default of a string or a timestamp. A file with one group that declares a
    variable with this default, quoted, is read, and the variable is optional and has the text as
    its default. -/
theorem quoted_default_is_read (path : Path) (group name query text ending : String)
    (nullable : Bool) (scalar : Scalar) (first second third : LineBreak)
    (legal : Reader.isGroupName group.toList = true) (named : Text.isName name.toList = true)
    (free : name ≠ "this") (textual : scalar = .string ∨ scalar = .timestamp)
    (queried : Text.isQueryText query.toList = true) (unbroken : '\n' ∉ query.toList)
    (ended : ending = "" ∨ ∃ lineBreak : LineBreak, ending = lineBreak.text) :
    read path (brokenText
        [(openingLine group, first),
          (variableLine name (plainType nullable scalar) (quotedDefault text), second),
          (query, third)] ++ (closingLine ++ ending)) =
      .ok ⟨path, none,
        [{ name := group
           query := Reader.trimEndString query
           declarations := .ofList [(name, ⟨scalar, nullable, false, true, some (.string text)⟩)]
           doc := ""
           file := path
           line := 1 }]⟩ := by
  have unbrokenLines : ∀ line ∈ [(openingLine group, first),
      (variableLine name (plainType nullable scalar) (quotedDefault text), second),
      (query, third)], '\n' ∉ line.1.toList := by
    simp only [List.forall_mem_cons]
    exact ⟨unbroken_openingLine legal, unbroken_variableLine named nullable scalar text, unbroken,
      List.forall_mem_nil _⟩
  let declared : OpenGroup :=
    { OpenGroup.opened group 1 with
      declarations := .ofList [(name, ⟨scalar, nullable, false, true, some (.string text)⟩)] }
  have opened : Reader.start.readLine path 1 (.directive (.opening group.toList)) =
      .ok ⟨none, true, [.opened group 1], []⟩ := by
    simp [Reader.readLine, Reader.readDirective, Reader.openGroup, legal, Reader.start,
      Reader.atLine]
  have taken : Reader.readLine ⟨none, true, [.opened group 1], []⟩ path 2 (Line.ofText
      (variableLine name (plainType nullable scalar) (quotedDefault text)).toList) =
        .ok ⟨none, true, [declared], []⟩ :=
    Reader.readLine_quotedDefault path 2 rfl rfl rfl rfl named free textual nullable text
  let asked : OpenGroup := { declared with query := [String.ofList (Text.trimEnd query.toList)] }
  have continued : Reader.readLine ⟨none, true, [declared], []⟩ path 3
      (.query (Text.trimEnd query.toList)) = .ok ⟨none, true, [asked], []⟩ := rfl
  have closed : Reader.readLine ⟨none, true, [asked], []⟩ path 4 (.directive (.closing [])) =
      .ok ⟨none, true, [], [Reader.statementOf path group asked]⟩ := rfl
  have statement : Reader.statementOf path group asked =
      { name := group
        query := Reader.trimEndString query
        declarations := .ofList [(name, ⟨scalar, nullable, false, true, some (.string text)⟩)]
        doc := ""
        file := path
        line := 1 } := by
    have same : Reader.trimEndString ("\n".intercalate asked.query) =
        Reader.trimEndString query := by
      simp [asked, Reader.trimEndString, Text.trimEnd_trimEnd]
    rw [Reader.statementOf, same]
    rfl
  rw [read, linesOf_brokenText unbrokenLines, linesOf_ended_closingLine ended]
  simp only [List.map_cons, List.map_nil, List.cons_append, List.nil_append,
    Line.ofText_openingLine legal, Line.ofText_of_isQueryText queried, Reader.readLines, opened,
    taken, continued, closed, statement]
  rfl

/-- The text has a line break, both escape signs, a control character and blanks at its ends, and
    starts with a word that stands for something else. -/
theorem quoted_default_of_controlText :
    Reader.isGroupName "list".toList = true ∧ Text.isName "since".toList = true ∧
      "since" ≠ "this" ∧ Text.isQueryText " SELECT :since ".toList = true ∧
      '\n' ∉ " SELECT :since ".toList ∧
      read ⟨"q.sql"⟩ (brokenText
          [(openingLine "list", .crlf),
            (variableLine "since" (plainType true .timestamp)
              (quotedDefault "now\t\"\\\n\x01 -- #\x7d\u2028 "), .lf),
            (" SELECT :since ", .lf)] ++ (closingLine ++ LineBreak.crlf.text)) =
        .ok ⟨⟨"q.sql"⟩, none,
          [{ name := "list"
             query := " SELECT :since"
             declarations := .ofList [("since", ⟨.timestamp, true, false, true,
               some (.string "now\t\"\\\n\x01 -- #\x7d\u2028 ")⟩)]
             doc := ""
             file := ⟨"q.sql"⟩
             line := 1 }]⟩ := by
  have legal : Reader.isGroupName "list".toList = true := by decide
  have named : Text.isName "since".toList = true := by decide
  have free : "since" ≠ "this" := by decide
  have queried : Text.isQueryText " SELECT :since ".toList = true := by decide
  have unbroken : '\n' ∉ " SELECT :since ".toList := by decide
  have trimmed : Reader.trimEndString " SELECT :since " = " SELECT :since" := by decide +kernel
  refine ⟨legal, named, free, queried, unbroken, ?_⟩
  rw [quoted_default_is_read ⟨"q.sql"⟩ "list" "since" " SELECT :since " _ LineBreak.crlf.text true
    .timestamp .crlf .lf .lf legal named free (.inr rfl) queried unbroken (.inr ⟨.crlf, rfl⟩),
    trimmed]

end Document

end QueryContract
