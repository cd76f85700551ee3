import QueryContract.Proofs.Artifact.Callables

/-!
The whole of a generated file, read for its callables: the constructor and then one for each
operation. Line by line a part of the file adds its callables, whatever stands around it.
-/

namespace QueryContract.Artifact

open Marked (fixed mark opener closer)

/-- Whatever fillers come before the text and whatever comes after it, these are its callables. -/
structure Reads (text : List Char) (found : List Callable) : Prop where
  closed : Mode.scan (.code false) text = .code false
  reads : ∀ gap after, IsGap gap → ∃ later, IsGap later ∧
    read (gap ++ (skim text ++ after)) = found ++ read (later ++ after)

section Reads

variable {text other : List Char} {found more : List Callable}

theorem Reads.append (h : Reads text found) (h' : Reads other more) :
    Reads (text ++ other) (found ++ more) where
  closed := by rw [Mode.scan_append, h.closed, h'.closed]
  reads gap after filler := by
    obtain ⟨middle, filler', first⟩ := h.reads gap (skim other ++ after) filler
    obtain ⟨later, filler'', second⟩ := h'.reads middle after filler'
    refine ⟨later, filler'', ?_⟩
    rw [skim_append h.closed, List.append_assoc, first, second, List.append_assoc]

theorem Fills.reads (h : Fills (.code false) text (.code false)) : Reads text [] where
  closed := h.scan
  reads gap after filler := by
    refine ⟨gap ++ skim text, filler.append h.gap, ?_⟩
    rw [List.nil_append, List.append_assoc]

theorem isEnd_eq_false_of_isFiller {glyph : Glyph} (filler : isFiller glyph = true) :
    isEnd glyph = false := by
  obtain ⟨c, code⟩ := glyph
  simp only [isFiller, Bool.and_eq_true, List.contains_iff_mem] at filler
  obtain ⟨rfl, member⟩ := filler
  have solid : (fillers.all fun c => !isEnd (c, true)) = true := by decide
  simpa using List.all_eq_true.mp solid c member

theorem Avoids.unended (h : Avoids ends text) : ∀ glyph ∈ skim text, isEnd glyph = false := by
  rintro ⟨c, code⟩ member
  cases code with
  | false => rfl
  | true =>
    refine Bool.eq_false_iff.mpr fun ended => h.apart c ?_ member
    simpa [isEnd] using ended

/-- The text is one sentence after these fillers and goes on with another one. -/
theorem splitOnP_sentence (h : Avoids ends text) {gap : List Glyph} (filler : IsGap gap)
    {last : Char} (ended : last ∈ ends) (after : List Glyph) :
    (gap ++ (skim (text ++ [last]) ++ after)).splitOnP isEnd =
      (gap ++ skim text) :: after.splitOnP isEnd := by
  have inside : ∀ glyph ∈ gap ++ skim text, isEnd glyph = false :=
    List.forall_mem_append.mpr
      ⟨fun glyph member => isEnd_eq_false_of_isFiller (filler glyph member), h.unended⟩
  have last' : isEnd (last, true) = true := by simpa [isEnd] using ended
  have split : gap ++ (skim (text ++ [last]) ++ after) =
      (gap ++ skim text) ++ (last, true) :: after := by
    rw [skim_append h.closed, List.append_assoc, List.append_assoc]
    rfl
  rw [split]
  exact List.splitOnP_append_cons_of_forall_mem inside _ last' _

theorem scan_ended (h : Avoids ends text) {last : Char} (ended : last ∈ ends) :
    Mode.scan (.code false) (text ++ [last]) = .code false := by
  rw [Mode.scan_append, h.closed]
  simp only [ends, List.mem_cons, List.not_mem_nil, or_false] at ended
  rcases ended with rfl | rfl | rfl <;> rfl

/-- The text begins otherwise than the head of a method, whatever fillers come before it. -/
def isOther (text : List Char) : Bool := text.head?.all fun c => !('p' :: fillers).contains c

/-- A sentence that begins otherwise than a method does declares none. -/
theorem reads_other (h : Avoids ends text) (other : isOther text = true)
    {last : Char} (ended : last ∈ ends) : Reads (text ++ [last]) [] where
  closed := scan_ended h ended
  reads gap after filler := by
    have none : after? "public function " (gap ++ skim text) = none := by
      rw [after?, List.dropWhile_append_of_pos filler]
      cases text with
      | nil => rfl
      | cons c rest =>
        have first : c ≠ 'p' ∧ c ∉ fillers := by simpa [isOther] using other
        have solid : isFiller (c, true) = false := by simpa [isFiller] using first.2
        rw [skim_cons, List.dropWhile_cons_of_neg (by rw [solid]; exact Bool.false_ne_true)]
        have differs : (('p', true) == (c, true)) = false := by simpa using Ne.symm first.1
        change (('p', true) :: coded "ublic function ".toList).isPrefixOf? _ = none
        rw [List.isPrefixOf?, differs]
        rfl
    refine ⟨[], isGap_nil, ?_⟩
    rw [read, splitOnP_sentence h filler ended, readSentences, none]
    rfl

/-- A function is read with the sentence after its head. -/
theorem Declares.reads_function {head body : List Char} {method : String}
    {parameters : List String} {called : Option Call} (h : Declares head method parameters)
    (later : Reads body [])
    (calls : ∀ after, ((skim body ++ after).splitOnP isEnd).head?.bind readCall? = called) :
    Reads (head ++ ['{'] ++ body) [⟨method, parameters, called⟩] where
  closed := by rw [Mode.scan_append, scan_ended h.avoids (by decide), later.closed]
  reads gap after filler := by
    obtain ⟨declared, found, rfl, rfl⟩ := h.reads gap filler
    obtain ⟨rest, filler', continues⟩ := later.reads [] after isGap_nil
    refine ⟨rest, filler', ?_⟩
    rw [skim_append (scan_ended h.avoids (by decide)), List.append_assoc, read,
      splitOnP_sentence h.avoids filler (by decide), readSentences, found]
    -- the sentence after the head is read for its call, and then once more on its own
    change _ :: read (skim body ++ after) = _
    rw [calls after]
    exact congrArg _ continues

end Reads

/-- What is read of an operation. -/
def callableOf (operation : Operation) : Callable where
  method := operation.method
  parameters := operation.parameters.names
  call := some ⟨operation.kind.connectorMethod, operation.name.toList.flatMap Literal.readBack⟩

section Lines

variable {operation : Operation}

theorem reads_method (h : Spelled operation) {gap : List Char}
    (blank : Fills (.code false) gap (.code false)) :
    Reads ((header operation).toList ++ ['{'] ++ (gap ++ ((call operation).toList ++ [';'])))
      [callableOf operation] := by
  have dollar : isOther (call operation).toList = true := by
    unfold call callOpening
    simp only [String.toList_append, List.append_assoc]
    rfl
  have statement := reads_other (avoids_call h) dollar (by decide : ';' ∈ ends)
  apply (declares_header h).reads_function (blank.reads.append statement)
  intro after
  have filler : IsGap (skim gap) := blank.gap
  rw [skim_append blank.scan, List.append_assoc,
    splitOnP_sentence (avoids_call h) filler (by decide), List.head?_cons, Option.bind_some]
  exact readCall?_call operation filler

/-- A line that is one sentence, and no head of a function. -/
theorem reads_line (style : Style) {words : String} (h : Avoids ends words.toList)
    (other : isOther words.toList = true) {last : Char} (ended : last ∈ ends) :
    Reads (words.toList ++ [last] ++ style.lineBreak.text.toList) [] :=
  (reads_other h other ended).append (fills_break style).reads

theorem reads_methodLines (style : Style) (h : Spelled operation) :
    Reads (ended style (Marked.methodLines style.indentation.text operation)).text
      [callableOf operation] := by
  let indent := style.indentation.text
  let feed := style.lineBreak.text
  have indented := fills_indentation style.indentation
  have broken := fills_break style
  have text : (ended style (Marked.methodLines indent operation)).text =
      indent.toList ++ ((header operation).toList ++ ['{'] ++
        ((feed.toList ++ (indent.toList ++ indent.toList)) ++ ((call operation).toList ++ [';']))) ++
      (feed.toList ++ (indent.toList ++ indent.toList) ++
        ("return yield Await::ONCE".toList ++ [';'] ++ feed.toList)) ++
      (indent.toList ++ ("".toList ++ ['}'] ++ feed.toList)) := by
    have answer : "return yield Await::ONCE;".toList =
        "return yield Await::ONCE".toList ++ [';'] := by decide
    have brace : closeBrace.toList = "".toList ++ ['}'] := by decide
    have signature : (signatureLine operation).toList = (header operation).toList ++ ['{'] :=
      String.toList_append
    simp [ended, Marked.methodLines, Marked.text_signatureLine, Marked.text_callLine,
      toList_callLine, signature, answer, brace, feed]
  have double := broken.append (indented.append indented)
  have answer : Reads ("return yield Await::ONCE".toList ++ [';'] ++ feed.toList) [] :=
    reads_line style (avoids_of_isClear (by decide)) (by decide) (by decide)
  have closing : Reads ("".toList ++ ['}'] ++ feed.toList) [] :=
    reads_line style (avoids_of_isClear (by decide)) (by decide) (by decide)
  rw [text]
  exact ((indented.reads.append (reads_method h double)).append (double.reads.append answer)).append
    (indented.reads.append closing)

theorem text_opener : opener.text = ['*'] := rfl

theorem text_closer : closer.text = ['/'] := rfl

theorem fills_commentLines (style : Style) (operation : Operation) :
    Fills (.code false) (ended style (Marked.commentLines style.indentation.text operation)).text
      (.code false) := by
  have indent := plain_indentation style.indentation
  obtain ⟨star, front⟩ := indent.slashless.staysInComment
  have inside := fills_comment front (unbraced_fixed _) rfl
  have opens : Fills (.code false) ['/', '*', '*'] (.comment true) := .of_all rfl rfl
  have closes : Fills (.comment star) [' ', '*', '/'] (.code false) := by
    cases star <;> exact .of_all rfl rfl
  rw [Marked.text_fixed] at inside
  apply fills_block style
  · refine ⟨true, ?_⟩
    have text : (fixed (style.indentation.text ++ "/") ++ opener ++ fixed "*").text =
        style.indentation.text.toList ++ ['/', '*', '*'] := by
      simp [Marked.text_append, text_opener]
    rw [text]
    exact (fills_indentation _).append opens
  · intro line member
    obtain ⟨documented, found, rfl⟩ := List.mem_map.mp member
    have unbraced := unbraced_documentation found
    exact ⟨staysInComment_commentLine indent unbraced, unbraced.commentLine _⟩
  · have text : (fixed (style.indentation.text ++ " *") ++ closer).text =
        style.indentation.text.toList ++ [' ', '*', '/'] := by
      simp [Marked.text_append, text_closer]
    rw [text]
    exact inside.append closes

theorem reads_operationLines (style : Style) (h : Spelled operation) :
    Reads (ended style (Marked.operationLines style.indentation.text operation)).text
      [callableOf operation] := by
  have blank : Reads (ended style [[]]).text [] := by
    rw [text_ended_singleton]
    exact (fills_break style).reads
  unfold Marked.operationLines
  rw [text_ended_append, text_ended_append]
  exact (blank.append (fills_commentLines style operation).reads).append
    (reads_methodLines style h)

end Lines

section File

variable {contract : Contract} {sources : List Path} {name : ArtifactName}

theorem reads_headLines (style : Style) (h : ∀ source ∈ sources, source.fileName?.isSome) :
    Reads (ended style (Marked.headLines sources)).text [] := by
  let block := [fixed "/" ++ opener] ++ creationLines sources ++ [fixed " *" ++ closer]
  have feed := fills_break style
  have comment : Fills (.code false) (ended style block).text (.code false) := by
    apply fills_block style ⟨false, .of_all rfl rfl⟩ _ (.of_all rfl rfl)
    intro line member
    have slashless := slashless_creationLines h line member
    exact ⟨slashless.staysInComment, fun pair held => (slashless pair held).1⟩
  let words := "<?php".toList ++ (style.lineBreak.text.toList ++ style.lineBreak.text.toList ++
    ((ended style block).text ++ (style.lineBreak.text.toList ++ "declare(strict_types=1)".toList)))
  have text : (ended style (Marked.headLines sources)).text = words ++ [';'] ++
      (style.lineBreak.text.toList ++ style.lineBreak.text.toList) := by
    have declared : "declare(strict_types=1);".toList =
        "declare(strict_types=1)".toList ++ [';'] := by decide
    simp [words, block, creationLines, ended, Marked.headLines, declared]
  have solid : (ends.all fun c => !fillers.contains c) = true := by decide
  have apart : Avoids ends words := by
    apply (avoids_of_isClear (by decide)).append
    apply ((feed.append feed).avoids solid).append
    apply (comment.avoids solid).append
    exact (feed.avoids solid).append (avoids_of_isClear (by decide))
  rw [text]
  exact (reads_other apart rfl (by decide)).append (feed.append feed).reads

theorem declares_constructor : Declares
    "public function __construct(private DataConnector $conn) ".toList "__construct" ["conn"] := by
  have front : Plain "public function " := by decide
  have back : Plain "__construct(private DataConnector $conn) " := by decide
  have split : "public function __construct(private DataConnector $conn) ".toList =
      "public function ".toList ++ "__construct(private DataConnector $conn) ".toList := by decide
  refine ⟨avoids_of_isClear (by decide), fun gap filler => ?_⟩
  refine ⟨coded "__construct(private DataConnector $conn) ".toList, ?_, by decide, by decide⟩
  rw [split, skim_append (scan_plain front), skim_plain front, skim_plain back]
  exact after?_append filler (by decide) _

/-- The constructor takes the connector and calls nothing. -/
def constructor : Callable := ⟨"__construct", ["conn"], none⟩

theorem reads_constructor : Reads
    ("public function __construct(private DataConnector $conn) ".toList ++ ['{'] ++ ['}'])
    [constructor] := by
  have body : Reads ['}'] [] := reads_other (avoids_nil ends) rfl (by decide)
  exact declares_constructor.reads_function body fun after => rfl

theorem reads_namespaceLines (style : Style)
    (h : ∀ segment ∈ name.segments, ∀ c ∈ segment.toList, Text.isNamePart c = true) :
    Reads (ended style ((namespaceLines name).map fixed)).text [] := by
  rcases namespaceLines_cases name with none | lines
  · rw [none]
    exact Fills.reads (.of_all rfl rfl)
  · have bare := bare_namespace h
    generalize "\\".intercalate name.parents = parents at bare lines
    have other : isOther ("namespace " ++ parents).toList = true := by
      rw [String.toList_append]
      rfl
    have line := reads_line style (bare.avoids.mono ends_subset_signs) other (by decide : ';' ∈ ends)
    have text : (ended style (["namespace " ++ parents ++ ";", ""].map fixed)).text =
        ("namespace " ++ parents).toList ++ [';'] ++ style.lineBreak.text.toList ++
          style.lineBreak.text.toList := by
      simp [ended, String.toList_append]
    rw [lines, text]
    exact line.append (fills_break style).reads

theorem reads_importLines (style : Style) :
    Reads (ended style (importLines.map fixed)).text [] := by
  let feed := style.lineBreak.text.toList
  have line {words : String} (clear : isClear ends words = true)
      (other : isOther words.toList = true) : Reads (words.toList ++ [';'] ++ feed) [] :=
    reads_line style (avoids_of_isClear clear) other (by decide)
  have generator : Reads ("use Generator".toList ++ [';'] ++ feed) [] :=
    line (by decide) (by decide)
  have connector : Reads ("use poggit\\libasynql\\DataConnector".toList ++ [';'] ++ feed) [] :=
    line (by decide) (by decide)
  have await : Reads ("use SOFe\\AwaitGenerator\\Await".toList ++ [';'] ++ feed) [] :=
    line (by decide) (by decide)
  have text : (ended style (importLines.map fixed)).text =
      ("use Generator".toList ++ [';'] ++ feed) ++
        (("use poggit\\libasynql\\DataConnector".toList ++ [';'] ++ feed) ++
          (("use SOFe\\AwaitGenerator\\Await".toList ++ [';'] ++ feed) ++ feed)) := by
    simp [ended, importLines, feed]
  rw [text]
  exact generator.append (connector.append (await.append (fills_break style).reads))

theorem reads_operations (style : Style) {operations : List Operation}
    (h : ∀ operation ∈ operations, Spelled operation) :
    Reads
      (ended style (operations.flatMap (Marked.operationLines style.indentation.text))).text
      (operations.map callableOf) := by
  induction operations with
  | nil => exact Fills.reads (.of_all rfl rfl)
  | cons operation rest ih =>
    obtain ⟨first, later⟩ := List.forall_mem_cons.mp h
    rw [List.flatMap_cons, text_ended_append]
    exact (reads_operationLines style first).append (ih later)

theorem reads_containerLines (style : Style)
    (h : ∀ operation ∈ contract.operations, Spelled operation)
    (hn : ∀ c ∈ name.container.toList, Text.isNamePart c = true) :
    Reads (ended style (Marked.containerLines contract name style)).text
      (constructor :: contract.operations.map callableOf) := by
  let feed := style.lineBreak.text.toList
  let words := style.container.words ++ " " ++ name.container
  let head := "public function __construct(private DataConnector $conn) ".toList
  have kind : Bare (style.container.words ++ " ") := by cases style.container <;> decide
  have other : isOther words.toList = true := by
    unfold words
    rw [String.toList_append, String.toList_append]
    cases style.container <;> rfl
  have bare : Bare words := kind.append (bare_of_isNamePart hn)
  have opens : Reads (words.toList ++ ['{'] ++ feed) [] :=
    reads_line style (bare.avoids.mono ends_subset_signs) other (by decide)
  have closes : Reads ("".toList ++ ['}'] ++ feed) [] :=
    reads_line style (avoids_of_isClear (by decide)) (by decide) (by decide)
  have front : (ended style [fixed (style.container.words ++ " " ++ name.container ++ openBrace),
      fixed (style.indentation.text ++ "public function __construct(private DataConnector $conn) "
        ++ openBrace ++ closeBrace)]).text =
      (words.toList ++ ['{'] ++ feed) ++
        (style.indentation.text.toList ++ ((head ++ ['{'] ++ ['}']) ++ feed)) := by
    have braces : openBrace.toList = ['{'] ∧ closeBrace.toList = ['}'] := by decide
    simp [ended, words, head, feed, braces]
  have back : (ended style [fixed closeBrace]).text = "".toList ++ ['}'] ++ feed := by
    rw [text_ended_singleton, Marked.text_fixed]
    rfl
  have construct := (fills_indentation style.indentation).reads.append
    (reads_constructor.append (fills_break style).reads)
  unfold Marked.containerLines
  rw [text_ended_append, text_ended_append, front, back]
  have all := ((opens.append construct).append (reads_operations style h)).append closes
  rw [List.append_nil] at all
  exact all

theorem read_of_fillers {gap : List Glyph} (filler : IsGap gap) : read gap = [] := by
  have whole : gap.splitOnP isEnd = [gap] :=
    List.splitOnP_eq_singleton fun glyph member => isEnd_eq_false_of_isFiller (filler glyph member)
  have none : after? "public function " gap = none := by
    rw [after?, List.dropWhile_eq_nil_iff.mpr filler]
    rfl
  rw [read, whole, readSentences, none]
  rfl

/-- The callables of a generated file are its constructor and one for each operation. -/
theorem callables_text (style : Style)
    (operations : ∀ operation ∈ contract.operations, Spelled operation)
    (hs : ∀ source ∈ sources, source.fileName?.isSome)
    (hn : ∀ segment ∈ name.segments, ∀ c ∈ segment.toList, Text.isNamePart c = true) :
    callables (Artifact.text contract sources name style) =
      constructor :: contract.operations.map callableOf := by
  have container := reads_containerLines style operations
    (hn name.container (List.mem_append_right _ List.mem_cons_self))
  have file := (((reads_headLines style hs).append (reads_namespaceLines style hn)).append
    (reads_importLines style)).append container
  obtain ⟨later, filler, found⟩ := file.reads [] [] isGap_nil
  simp only [List.append_nil, List.nil_append, read_of_fillers filler] at found
  rw [callables, ← Marked.text_file]
  have text : (Marked.file contract sources name style).text =
      (ended style (Marked.headLines sources)).text ++
        (ended style ((namespaceLines name).map fixed)).text ++
        (ended style (importLines.map fixed)).text ++
        (ended style (Marked.containerLines contract name style)).text := by
    rw [← text_ended_append, ← text_ended_append, ← text_ended_append]
    rfl
  rw [text]
  exact found

end File

end QueryContract.Artifact
