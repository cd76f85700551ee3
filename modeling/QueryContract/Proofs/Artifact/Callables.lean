import QueryContract.Proofs.Artifact.DoubleQuoted
import QueryContract.Proofs.Artifact.Glyphs
import QueryContract.Proofs.Artifact.Safety

/-!
The callables of a generated file, read from its text alone. Outside comments and strings the text
falls into sentences; a callable is a sentence that declares a function, and the one after it may be
a call of the connector.
-/

namespace QueryContract.Artifact

open Marked (fixed mark opener closer)

def isEnd (glyph : Glyph) : Bool := glyph.2 && ends.contains glyph.1

def isNameGlyph (glyph : Glyph) : Bool := glyph.2 && Text.isNamePart glyph.1

/-- The name at the start of a text. -/
def nameAt (text : List Glyph) : String :=
  String.ofList ((text.takeWhile isNameGlyph).map Prod.fst)

/-- The names of the variables that stand in code. -/
def variablesOf : List Glyph → List String
  | [] => []
  | glyph :: rest => if glyph = ('$', true) then nameAt rest :: variablesOf rest else variablesOf rest

/-- The text after these words of code, with fillers passed over before them. -/
def after? (words : String) (text : List Glyph) : Option (List Glyph) :=
  (coded words.toList).isPrefixOf? (text.dropWhile isFiller)

/-- A call of the connector, with the value of its first argument. -/
structure Call where
  target : String
  name : List UInt8
  deriving DecidableEq, Repr

structure Callable where
  method : String
  parameters : List String
  call : Option Call
  deriving DecidableEq, Repr

def readCall? (sentence : List Glyph) : Option Call := do
  let called ← after? "$this->conn->" sentence
  let target := nameAt called
  let arguments ← after? (target ++ "(") called
  let (name, _) ← Literal.readDoubleQuoted (arguments.map Prod.fst)
  pure ⟨target, name⟩

def readSentences : List (List Glyph) → List Callable
  | [] => []
  | sentence :: rest =>
    match after? "public function " sentence with
    | some declared =>
      ⟨nameAt declared, variablesOf declared, rest.head?.bind readCall?⟩ :: readSentences rest
    | none => readSentences rest

def read (text : List Glyph) : List Callable := readSentences (text.splitOnP isEnd)

def callables (text : String) : List Callable := read (skim text.toList)

section Words

variable {gap front rest : List Glyph} {words : String}

/-- The words begin with no filler, so that they are found after fillers. -/
def isSolid (words : String) : Bool := words.toList.head?.any fun c => !isFiller (c, true)

theorem after?_append (filler : IsGap gap) (solid : isSolid words = true)
    (rest : List Glyph) : after? words (gap ++ (coded words.toList ++ rest)) = some rest := by
  unfold isSolid at solid
  obtain ⟨c, others, split⟩ : ∃ c others, words.toList = c :: others := by
    cases h : words.toList with
    | nil => rw [h] at solid; cases solid
    | cons c others => exact ⟨c, others, rfl⟩
  rw [split, List.head?_cons, Option.any_some, Bool.not_eq_true'] at solid
  have stops : (coded words.toList ++ rest).dropWhile isFiller = coded words.toList ++ rest := by
    rw [split]
    exact List.dropWhile_cons_of_neg (by simp [solid])
  rw [after?, List.dropWhile_append_of_pos filler, stops,
    List.isPrefixOf?_eq_some_iff_append_eq]

theorem nameAt_append {name : String} (parts : ∀ c ∈ name.toList, Text.isNamePart c = true)
    (stop : ∀ glyph ∈ rest.head?, isNameGlyph glyph = false) :
    nameAt (coded name.toList ++ rest) = name := by
  have names : ∀ glyph ∈ coded name.toList, isNameGlyph glyph = true := by
    intro glyph member
    obtain ⟨c, found, rfl⟩ := List.mem_map.mp member
    exact parts c found
  have chars : (coded name.toList).map Prod.fst = name.toList := by
    simp [coded, Function.comp_def]
  rw [nameAt, takeWhile_append_of_stop names stop, chars, String.ofList_toList]

/-- A sign after a name ends it. -/
theorem isNameGlyph_head (c : Char) (sign : Text.isNamePart c = false) (rest : List Glyph) :
    ∀ glyph ∈ ((c, true) :: rest).head?, isNameGlyph glyph = false := by
  intro glyph head
  cases head
  exact sign

theorem variablesOf_append (apart : ('$', true) ∉ front) (rest : List Glyph) :
    variablesOf (front ++ rest) = variablesOf rest := by
  induction front with
  | nil => rfl
  | cons glyph others ih =>
    rw [List.mem_cons, not_or] at apart
    rw [List.cons_append, variablesOf, if_neg (Ne.symm apart.1)]
    exact ih apart.2

end Words

section Parts

variable {avoided : List Char}

theorem ends_subset_signs : ends ⊆ signs := List.subset_cons_self _ _

theorem Bare.avoids {text : String} (h : Bare text) : Avoids signs text.toList :=
  avoids_of_isClear (List.all_eq_true.mpr h)

theorem Bare.dollar_not_mem {text : String} (h : Bare text) : ('$', true) ∉ coded text.toList := by
  rw [← skim_plain h.plain]
  exact h.avoids.apart '$' List.mem_cons_self

theorem skim_bare {text : String} (h : Bare text) (rest : List Char) :
    skim (text.toList ++ rest) = coded text.toList ++ skim rest := by
  rw [skim_append h.avoids.closed, skim_plain h.plain]

theorem avoids_singleQuoted (value : String) :
    Avoids signs (Literal.singleQuoted value).toList := by
  have inside := @contained_escapeSingle (.input .default) rfl value.toList
  rw [Literal.singleQuoted, String.toList_ofList]
  exact avoids_quoted rfl rfl rfl inside rfl (by decide)

theorem avoids_ofValue (value : Fallback) : Avoids signs (Literal.ofValue value).toList := by
  cases value with
  | null => exact Bare.avoids (by decide)
  | int value => exact (numeric_showInt _).bare.avoids
  | float value => exact (numeric_layoutText _ value).bare.avoids
  | bool value => cases value <;> exact Bare.avoids (by decide)
  | string value => exact avoids_singleQuoted value
  | now => exact avoids_singleQuoted "NOW"

/-- A parameter is declared by its type and its name; a default adds no variable. -/
theorem signature_parts (parameter : Parameter) : ∃ fallback,
    (signature parameter).toList =
        (signatureType parameter.declaration ++ " ").toList ++
          '$' :: (parameter.name.toList ++ fallback) ∧
      Avoids signs fallback ∧ ∀ c ∈ fallback.head?, Text.isNamePart c = false := by
  have declared : (signatureType parameter.declaration ++ " $" ++ parameter.name).toList =
      (signatureType parameter.declaration ++ " ").toList ++ '$' :: parameter.name.toList := by
    simp [String.toList_append]
  have plain : ∃ fallback, (signatureType parameter.declaration ++ " $" ++ parameter.name).toList =
        (signatureType parameter.declaration ++ " ").toList ++
          '$' :: (parameter.name.toList ++ fallback) ∧
      Avoids signs fallback ∧ ∀ c ∈ fallback.head?, Text.isNamePart c = false :=
    ⟨[], by rw [declared, List.append_nil], avoids_nil _, nofun⟩
  simp only [signature]
  split
  · rename_i value _
    split
    · refine ⟨" = ".toList ++ (Literal.ofValue value).toList, ?_, ?_, ?_⟩
      · rw [String.toList_append, String.toList_append, declared]
        simp
      · exact (Bare.avoids (by decide)).append (avoids_ofValue value)
      · intro c head
        cases head
        decide
    · exact plain
  · exact plain

end Parts

section Header

variable {parameter : Parameter} {parameters : List Parameter} {operation : Operation}

theorem avoids_signature (named : ∀ c ∈ parameter.name.toList, Text.isNamePart c = true) :
    Avoids ends (signature parameter).toList := by
  obtain ⟨fallback, split, apart, -⟩ := signature_parts parameter
  have type : Bare (signatureType parameter.declaration ++ " ") :=
    (bare_signatureType _).append (by decide)
  have name := (bare_of_isNamePart named).avoids
  have dollar : Avoids ends "$".toList := avoids_of_isClear (by decide)
  rw [split, List.append_cons, ← List.append_assoc]
  exact ((((type.avoids.mono ends_subset_signs).append dollar).append
    (name.mono ends_subset_signs)).append (apart.mono ends_subset_signs))

theorem variablesOf_signature (named : ∀ c ∈ parameter.name.toList, Text.isNamePart c = true)
    {rest : List Glyph} (stop : ∀ glyph ∈ rest.head?, isNameGlyph glyph = false) :
    variablesOf (skim (signature parameter).toList ++ rest) = parameter.name :: variablesOf rest := by
  obtain ⟨fallback, split, apart, begins⟩ := signature_parts parameter
  have type : Bare (signatureType parameter.declaration ++ " ") :=
    (bare_signatureType _).append (by decide)
  have name := bare_of_isNamePart named
  have kept : skim (signature parameter).toList =
      coded (signatureType parameter.declaration ++ " ").toList ++
        ('$', true) :: (coded parameter.name.toList ++ skim fallback) := by
    rw [split, skim_bare type, skim_cons]
    exact congrArg _ (congrArg _ (skim_bare name fallback))
  have stops : ∀ glyph ∈ (skim fallback ++ rest).head?, isNameGlyph glyph = false := by
    cases fallback with
    | nil => exact stop
    | cons c others =>
      intro glyph head
      cases head
      exact begins c rfl
  rw [kept, List.append_assoc, variablesOf_append type.dollar_not_mem, List.cons_append,
    List.append_assoc, variablesOf, if_pos rfl, nameAt_append named stops,
    variablesOf_append name.dollar_not_mem, variablesOf_append (apart.apart '$' List.mem_cons_self)]

/-- The text between the brackets of a head. -/
def declaredText (parameters : List Parameter) : List Char :=
  ", ".toList.intercalate (parameters.map fun parameter => (signature parameter).toList)

theorem avoids_declaredText
    (named : ∀ parameter ∈ parameters, ∀ c ∈ parameter.name.toList, Text.isNamePart c = true) :
    Avoids ends (declaredText parameters) := by
  apply Avoids.intercalate (avoids_of_isClear (by decide))
  intro part member
  obtain ⟨parameter, found, rfl⟩ := List.mem_map.mp member
  exact avoids_signature (named parameter found)

theorem variablesOf_declaredText
    (named : ∀ parameter ∈ parameters, ∀ c ∈ parameter.name.toList, Text.isNamePart c = true)
    {rest : List Glyph} (stop : ∀ glyph ∈ rest.head?, isNameGlyph glyph = false) :
    variablesOf (skim (declaredText parameters) ++ rest) =
      parameters.map Parameter.name ++ variablesOf rest := by
  induction parameters with
  | nil => rfl
  | cons parameter others ih =>
    obtain ⟨first, later⟩ := List.forall_mem_cons.mp named
    cases others with
    | nil => simpa [declaredText] using variablesOf_signature first stop
    | cons second further =>
      have comma : Bare ", " := by decide
      have parted : declaredText (parameter :: second :: further) =
          (signature parameter).toList ++ (", ".toList ++ declaredText (second :: further)) := by
        rw [declaredText, List.map_cons, List.map_cons, List.intercalate_cons_cons,
          List.append_assoc]
        rfl
      have stops : ∀ glyph ∈ (coded ", ".toList ++
          (skim (declaredText (second :: further)) ++ rest)).head?, isNameGlyph glyph = false :=
        isNameGlyph_head ',' rfl _
      rw [parted, skim_append (avoids_signature first).closed, skim_bare comma, List.append_assoc,
        List.append_assoc, variablesOf_signature first stops,
        variablesOf_append comma.dollar_not_mem, ih later]
      rfl

/-- The head of a method, up to its block. -/
def header (operation : Operation) : String :=
  "public function " ++ operation.method ++ "("
    ++ ", ".intercalate (operation.parameters.canonical.map signature) ++ ") : Generator "

theorem toList_header (operation : Operation) :
    (header operation).toList = "public function ".toList ++ (operation.method.toList ++
      ("(".toList ++ (declaredText operation.parameters.canonical ++ ") : Generator ".toList))) := by
  have joined : (", ".intercalate (operation.parameters.canonical.map signature)).toList =
      declaredText operation.parameters.canonical := by
    rw [String.toList_intercalate, List.map_map]
    rfl
  unfold header
  simp only [String.toList_append, List.append_assoc, joined]

theorem avoids_header (h : Spelled operation) : Avoids ends (header operation).toList := by
  have words {text : String} (bare : Bare text) : Avoids ends text.toList :=
    bare.avoids.mono ends_subset_signs
  rw [toList_header]
  apply (words (by decide)).append
  apply (words (bare_of_isNamePart h.method)).append
  apply (words (by decide)).append
  exact (avoids_declaredText h.parameters).append (words (by decide))

/-- After any fillers the text is the head of this function. -/
structure Declares (text : List Char) (method : String) (parameters : List String) : Prop where
  avoids : Avoids ends text
  reads : ∀ gap, IsGap gap → ∃ declared,
    after? "public function " (gap ++ skim text) = some declared ∧
      nameAt declared = method ∧ variablesOf declared = parameters

theorem declares_header (h : Spelled operation) :
    Declares (header operation).toList operation.method operation.parameters.names := by
  refine ⟨avoids_header h, fun gap filler => ?_⟩
  let tail := skim (declaredText operation.parameters.canonical ++ ") : Generator ".toList)
  have words : Bare "public function " := by decide
  have bracket : Bare "(" := by decide
  have back : Bare ") : Generator " := by decide
  have method := bare_of_isNamePart h.method
  have kept : skim (header operation).toList = coded "public function ".toList ++
      (coded operation.method.toList ++ (coded "(".toList ++ tail)) := by
    rw [toList_header, skim_bare words, skim_bare method, skim_bare bracket]
  refine ⟨coded operation.method.toList ++ (coded "(".toList ++ tail), ?_, ?_, ?_⟩
  · rw [kept]
    exact after?_append filler (by decide) _
  · exact nameAt_append h.method (isNameGlyph_head '(' rfl _)
  · have stop : ∀ glyph ∈ (coded ") : Generator ".toList).head?, isNameGlyph glyph = false :=
      isNameGlyph_head ')' rfl _
    have none : variablesOf (coded ") : Generator ".toList) = [] := by decide
    rw [variablesOf_append method.dollar_not_mem, variablesOf_append bracket.dollar_not_mem]
    unfold tail
    rw [skim_append (avoids_declaredText h.parameters).closed, skim_plain back.plain,
      variablesOf_declaredText h.parameters stop, none, List.append_nil]
    rfl

end Header

section Call

variable {operation : Operation}

/-- The statement that calls the connector, up to its semicolon. -/
def call (operation : Operation) : String :=
  callOpening operation ++ Literal.doubleQuoted operation.name ++ ", ["
    ++ ", ".intercalate (operation.parameters.canonical.map argument)
    ++ "], yield Await::RESOLVE, yield Await::REJECT)"

theorem toList_callLine (operation : Operation) :
    (callLine operation).toList = (call operation).toList ++ [';'] := by
  have ended : "], yield Await::RESOLVE, yield Await::REJECT);".toList =
      "], yield Await::RESOLVE, yield Await::REJECT)".toList ++ [';'] := by decide
  unfold callLine call callOpening
  simp only [String.toList_append, List.append_assoc, ended]

theorem skim_doubleQuoted (name : String) :
    Mode.scan (.code false) (Literal.doubleQuoted name).toList = .code false ∧
      (skim (Literal.doubleQuoted name).toList).map Prod.fst =
        (Literal.doubleQuoted name).toList := by
  have inside := @contained_escapeDouble (.input .operationName) rfl name.toList
  rw [Literal.toList_doubleQuoted]
  have opens : (Mode.code false).step '"' = .double false := rfl
  obtain ⟨closed, kept⟩ := skim_quoted opens rfl rfl inside rfl
  refine ⟨closed, ?_⟩
  rw [kept, List.map_cons, List.map_map]
  simp [Function.comp_def]

theorem avoids_doubleQuoted (name : String) : Avoids ends (Literal.doubleQuoted name).toList := by
  have inside := @contained_escapeDouble (.input .operationName) rfl name.toList
  rw [Literal.toList_doubleQuoted]
  exact avoids_quoted rfl rfl rfl inside rfl (by decide)

theorem avoids_argument {parameter : Parameter}
    (named : ∀ c ∈ parameter.name.toList, Text.isNamePart c = true) :
    Avoids ends (argument parameter).toList := by
  have inside := @contained_double_name (.input .default) rfl parameter.name named
  have key : Avoids ends ('"' :: (parameter.name.toList ++ ['"'])) :=
    avoids_quoted rfl rfl rfl inside rfl (by decide)
  have arrow : Avoids ends " => $".toList := avoids_of_isClear (by decide)
  have name := (bare_of_isNamePart named).avoids.mono ends_subset_signs
  have split : (argument parameter).toList =
      '"' :: (parameter.name.toList ++ ['"']) ++ (" => $".toList ++ parameter.name.toList) := by
    simp [argument, String.toList_append]
  rw [split]
  exact key.append (arrow.append name)

theorem avoids_call (h : Spelled operation) : Avoids ends (call operation).toList := by
  have opening : Avoids ends (callOpening operation).toList := by
    unfold callOpening
    apply avoids_of_isClear
    cases operation.kind <;> decide
  have bracket : Avoids ends ", [".toList := avoids_of_isClear (by decide)
  have comma : Avoids ends ", ".toList := avoids_of_isClear (by decide)
  have back : Avoids ends "], yield Await::RESOLVE, yield Await::REJECT)".toList :=
    avoids_of_isClear (by decide)
  have arguments : Avoids ends
      (", ".intercalate (operation.parameters.canonical.map argument)).toList := by
    rw [String.toList_intercalate, List.map_map]
    apply comma.intercalate
    intro part member
    obtain ⟨parameter, found, rfl⟩ := List.mem_map.mp member
    exact avoids_argument (h.parameters parameter found)
  unfold call
  simp only [String.toList_append]
  exact (((opening.append (avoids_doubleQuoted _)).append bracket).append arguments).append back

theorem skim_call (operation : Operation) : ∃ tail, skim (call operation).toList =
    coded "$this->conn->".toList ++ (coded (operation.kind.connectorMethod ++ "(").toList ++
      (skim (Literal.doubleQuoted operation.name).toList ++ tail)) := by
  have opening : Plain "$this->conn->" := by decide
  have called : Plain (operation.kind.connectorMethod ++ "(") := by cases operation.kind <;> decide
  obtain ⟨tail, split⟩ : ∃ tail, (call operation).toList =
      "$this->conn->".toList ++ ((operation.kind.connectorMethod ++ "(").toList ++
        ((Literal.doubleQuoted operation.name).toList ++ tail)) := by
    unfold call callOpening
    simp only [String.toList_append, List.append_assoc]
    exact ⟨_, rfl⟩
  refine ⟨skim tail, ?_⟩
  rw [split, skim_append (scan_plain opening), skim_plain opening, skim_append (scan_plain called),
    skim_plain called, skim_append (skim_doubleQuoted operation.name).1]

theorem nameAt_connectorMethod (kind : QueryKind) (rest : List Glyph) :
    nameAt (coded (kind.connectorMethod ++ "(").toList ++ rest) = kind.connectorMethod := by
  have parts : ∀ c ∈ kind.connectorMethod.toList, Text.isNamePart c = true := by
    apply List.all_eq_true.mp
    cases kind <;> decide
  rw [String.toList_append, coded, List.map_append, List.append_assoc]
  exact nameAt_append parts (isNameGlyph_head '(' rfl _)

/-- The value of the name is what its literal says, which may be another name. -/
theorem readCall?_call (operation : Operation) {gap : List Glyph} (filler : IsGap gap) :
    readCall? (gap ++ skim (call operation).toList) =
      some ⟨operation.kind.connectorMethod, operation.name.toList.flatMap Literal.readBack⟩ := by
  obtain ⟨tail, kept⟩ := skim_call operation
  let literal := skim (Literal.doubleQuoted operation.name).toList
  have solid : isSolid (operation.kind.connectorMethod ++ "(") = true := by
    cases operation.kind <;> decide
  have opening := after?_append filler (by decide : isSolid "$this->conn->" = true)
    (coded (operation.kind.connectorMethod ++ "(").toList ++ (literal ++ tail))
  have arguments : after? (operation.kind.connectorMethod ++ "(")
      (coded (operation.kind.connectorMethod ++ "(").toList ++ (literal ++ tail)) =
        some (literal ++ tail) := after?_append isGap_nil solid (literal ++ tail)
  have value : Literal.readDoubleQuoted ((literal ++ tail).map Prod.fst) =
      some (operation.name.toList.flatMap Literal.readBack, tail.map Prod.fst) := by
    rw [List.map_append, (skim_doubleQuoted operation.name).2]
    exact Literal.readDoubleQuoted_doubleQuoted _ _
  rw [kept, readCall?, opening]
  simp only [Option.bind_eq_bind, Option.bind_some, nameAt_connectorMethod, arguments, value]
  rfl

end Call

end QueryContract.Artifact
