import QueryContract.Proofs.Text.Pieces

/-!
Scanning generated PHP: code, block comments and the two kinds of quoted strings. Each character of
a generated text is marked with where it comes from, and a text is contained if the marks and the
modes of the scan agree all along it.
-/

namespace QueryContract.Artifact

/-- Where a scan stands, with what the last character left open. -/
inductive Mode where
  /-- After a slash a star opens a comment. -/
  | code (slash : Bool)
  /-- After a star a slash closes the comment. -/
  | comment (star : Bool)
  /-- After a backslash the next character stands for itself. -/
  | single (escaped : Bool)
  | double (escaped : Bool)
  deriving DecidableEq, Repr

namespace Mode

def isCode : Mode → Bool
  | code _ => true
  | _ => false

def step : Mode → Char → Mode
  | code slash, c =>
    if c = '\'' then single false
    else if c = '"' then double false
    else if slash = true ∧ c = '*' then comment false
    else code (c = '/')
  | comment star, c => if star = true ∧ c = '/' then code false else comment (c = '*')
  | single escaped, c =>
    if escaped then single false
    else if c = '\\' then single true
    else if c = '\'' then code false
    else single false
  | double escaped, c =>
    if escaped then double false
    else if c = '\\' then double true
    else if c = '"' then code false
    else double false

def scan (mode : Mode) (text : List Char) : Mode := text.foldl step mode

def opens (mode : Mode) (c : Char) : Prop := mode = code true ∧ c = '*'

def closes (mode : Mode) (c : Char) : Prop := mode = comment true ∧ c = '/'

end Mode

/-- What an artifact takes over from its declarations and from the paths of their files. -/
inductive Source where
  | doc
  | path
  | baseName
  | operationName
  | default
  deriving DecidableEq, Repr

inductive Mark where
  /-- Text of the generator itself, or a name that was checked to be an identifier. -/
  | fixed
  | opening
  | closing
  | input (source : Source)
  deriving DecidableEq, Repr

abbrev Marked := List (Char × Mark)

namespace Marked

def text (marked : Marked) : List Char := marked.map Prod.fst

def mark (kind : Mark) (text : List Char) : Marked := text.map fun c => (c, kind)

def fixed (text : String) : Marked := mark .fixed text.toList

@[simp] theorem text_append (left right : Marked) :
    (left ++ right).text = left.text ++ right.text := List.map_append

@[simp] theorem text_mark (kind : Mark) (chars : List Char) : (mark kind chars).text = chars := by
  simp [text, mark, Function.comp_def]

@[simp] theorem text_fixed (chars : String) : (fixed chars).text = chars.toList := text_mark _ _

end Marked

/-- A marked character in the mode in which it is scanned. -/
structure Agrees (mode : Mode) (c : Char) (mark : Mark) : Prop where
  input : ∀ source, mark = .input source → mode.isCode = false
  opening : mode.opens c ↔ mark = .opening
  closing : mode.closes c ↔ mark = .closing
  dollar : mode = .double false → c ≠ '$'

/-- All characters agree with their marks, and the scan goes from one mode to the other. -/
inductive Contained : Mode → Marked → Mode → Prop where
  | nil (mode : Mode) : Contained mode [] mode
  | cons {mode last : Mode} {c : Char} {mark : Mark} {rest : Marked} (agrees : Agrees mode c mark)
      (later : Contained (mode.step c) rest last) : Contained mode ((c, mark) :: rest) last

namespace Contained

variable {start middle last : Mode} {marked other : Marked}

theorem append (h : Contained start marked middle) (h' : Contained middle other last) :
    Contained start (marked ++ other) last := by
  induction h with
  | nil => exact h'
  | cons agrees _ ih => exact .cons agrees (ih h')

theorem scan_eq (h : Contained start marked last) : start.scan marked.text = last := by
  induction h with
  | nil => rfl
  | cons _ _ ih => exact ih

theorem agrees (h : Contained start marked last) {before after : Marked} {c : Char} {mark : Mark}
    (split : marked = before ++ (c, mark) :: after) : Agrees (start.scan before.text) c mark := by
  induction before generalizing start marked with
  | nil =>
    subst split
    cases h with
    | cons agrees _ => exact agrees
  | cons first rest ih =>
    subst split
    cases h with
    | cons _ later => exact ih later rfl

theorem flatten {mode : Mode} {parts : List Marked} (h : ∀ part ∈ parts, Contained mode part mode) :
    Contained mode parts.flatten mode := by
  induction parts with
  | nil => exact .nil mode
  | cons part rest ih =>
    have first := h part List.mem_cons_self
    exact first.append (ih fun other member => h other (List.mem_cons_of_mem _ member))

theorem intercalate {mode : Mode} {separator : Marked} {parts : List Marked}
    (hs : Contained mode separator mode) (h : ∀ part ∈ parts, Contained mode part mode) :
    Contained mode (separator.intercalate parts) mode := by
  apply flatten
  intro part member
  rcases Text.eq_or_mem_of_mem_intersperse member with rfl | member
  · exact hs
  · exact h part member

end Contained

abbrev StaysInCode (marked : Marked) : Prop := Contained (.code false) marked (.code false)

/-- A mark of characters that neither open nor close a comment. -/
def Mark.isBrace : Mark → Bool
  | opening | closing => true
  | _ => false

theorem Mark.ne_of_isBrace {mark : Mark} (h : mark.isBrace = false) :
    mark ≠ .opening ∧ mark ≠ .closing := by
  constructor <;> rintro rfl <;> cases h

theorem agrees_outside {mode : Mode} {c : Char} {mark : Mark} (hm : mark.isBrace = false)
    (outside : mode.isCode = false) (stays : ¬mode.closes c)
    (dollar : mode = .double false → c ≠ '$') : Agrees mode c mark where
  input _ _ := outside
  opening := by
    refine iff_of_false ?_ (Mark.ne_of_isBrace hm).1
    rintro ⟨rfl, -⟩
    cases outside
  closing := iff_of_false stays (Mark.ne_of_isBrace hm).2
  dollar := dollar

/-- A character that means nothing to a scan of code. -/
def isPlain (c : Char) : Bool := c != '\'' && c != '"' && c != '/'

theorem contained_code {chars : List Char} (h : ∀ c ∈ chars, isPlain c = true) :
    StaysInCode (Marked.mark .fixed chars) := by
  induction chars with
  | nil => exact .nil _
  | cons c rest ih =>
    obtain ⟨plain, later⟩ := List.forall_mem_cons.mp h
    simp only [isPlain, Bool.and_eq_true, bne_iff_ne] at plain
    have stays : (Mode.code false).step c = .code false := by simp [Mode.step, plain]
    have agrees : Agrees (.code false) c .fixed :=
      ⟨nofun, by simp [Mode.opens], by simp [Mode.closes], nofun⟩
    refine .cons agrees ?_
    rw [stays]
    exact ih later

def Unbraced (marked : Marked) : Prop := ∀ pair ∈ marked, pair.2.isBrace = false

/-- No slash follows a star; `star` tells whether one comes before the text. -/
def Quiet (star : Bool) : List Char → Prop
  | [] => True
  | c :: rest => ¬(star = true ∧ c = '/') ∧ Quiet (c = '*') rest

theorem quiet_of_forall_ne {text : List Char} (h : ∀ c ∈ text, c ≠ '/') (star : Bool) :
    Quiet star text := by
  induction text generalizing star with
  | nil => trivial
  | cons c rest ih =>
    obtain ⟨plain, later⟩ := List.forall_mem_cons.mp h
    exact ⟨fun slash => plain slash.2, ih later _⟩

theorem contained_comment {star : Bool} {marked : Marked} (kinds : Unbraced marked)
    (quiet : Quiet star marked.text) :
    ∃ later, Contained (.comment star) marked (.comment later) := by
  induction marked generalizing star with
  | nil => exact ⟨star, .nil _⟩
  | cons first rest ih =>
    obtain ⟨c, kind⟩ := first
    obtain ⟨kind', kinds⟩ := List.forall_mem_cons.mp kinds
    obtain ⟨stays, quiet⟩ := quiet
    obtain ⟨later, contained⟩ := ih kinds quiet
    have unclosed : ¬(Mode.comment star).closes c := fun closes =>
      stays ⟨Mode.comment.inj closes.1, closes.2⟩
    have step : (Mode.comment star).step c = .comment (c = '*') := by
      rw [Mode.step, if_neg stays]
    refine ⟨later, .cons (agrees_outside kind' rfl unclosed nofun) ?_⟩
    rw [step]
    exact contained

theorem contained_char {mode last : Mode} {c : Char} {kind : Mark} (agrees : Agrees mode c kind)
    (step : mode.step c = last) : Contained mode (Marked.mark kind [c]) last :=
  .cons agrees (step ▸ .nil _)

theorem contained_comment_reset (star : Bool) {c : Char} (hs : c ≠ '*') (hc : c ≠ '/') :
    Contained (.comment star) (Marked.mark .fixed [c]) (.comment false) := by
  have step : (Mode.comment star).step c = .comment false := by simp [Mode.step, hs, hc]
  exact contained_char (agrees_outside rfl rfl (fun closes => hc closes.2) nofun) step

section Quoted

variable {kind : Mark} {c : Char}

theorem contained_single_char (hk : kind.isBrace = false) (backslash : c ≠ '\\')
    (quote : c ≠ '\'') : Contained (.single false) (Marked.mark kind [c]) (.single false) := by
  have stays : (Mode.single false).step c = .single false := by simp [Mode.step, backslash, quote]
  exact contained_char (agrees_outside hk rfl (fun closes => nomatch closes.1) nofun) stays

theorem contained_single_pair (hk : kind.isBrace = false) (c : Char) :
    Contained (.single false) (Marked.mark kind ['\\', c]) (.single false) :=
  .cons (agrees_outside hk rfl (fun closes => nomatch closes.1) nofun) <|
    .cons (agrees_outside hk rfl (fun closes => nomatch closes.1) nofun) (.nil _)

theorem contained_double_char (hk : kind.isBrace = false) (backslash : c ≠ '\\') (quote : c ≠ '"')
    (dollar : c ≠ '$') : Contained (.double false) (Marked.mark kind [c]) (.double false) := by
  have stays : (Mode.double false).step c = .double false := by simp [Mode.step, backslash, quote]
  have agrees : Agrees (.double false) c kind :=
    agrees_outside hk rfl (fun closes => nomatch closes.1) fun _ => dollar
  exact contained_char agrees stays

theorem contained_double_pair (hk : kind.isBrace = false) (c : Char) :
    Contained (.double false) (Marked.mark kind ['\\', c]) (.double false) :=
  .cons (agrees_outside hk rfl (fun closes => nomatch closes.1) fun _ => by decide) <|
    .cons (agrees_outside hk rfl (fun closes => nomatch closes.1) nofun) (.nil _)

end Quoted

theorem contained_flatMap {mode : Mode} {kind : Mark} {encode : Char → List Char}
    {chars : List Char} (h : ∀ c ∈ chars, Contained mode (Marked.mark kind (encode c)) mode) :
    Contained mode (Marked.mark kind (chars.flatMap encode)) mode := by
  rw [Marked.mark, List.map_flatMap, List.flatMap_def]
  apply Contained.flatten
  intro part member
  obtain ⟨c, found, rfl⟩ := List.mem_map.mp member
  exact h c found

end QueryContract.Artifact
