import QueryContract.Proofs.Contract.Merging
import QueryContract.Proofs.Naming.Distinct

/-!
The word that is stripped from the front of method names. It decides which methods are held already
and so which of them get a number, but no method is looked at for anything else: with another word
a merge ends alike, and what it makes and notices differs in methods only.
-/

namespace QueryContract

variable {ε α β γ δ : Type}

/-- Whether a notice tells of the number of a method. -/
def Notice.isOfMethod : Notice → Bool
  | takenMethod .. => true
  | _ => false

def Operation.withoutMethod (operation : Operation) : Operation := { operation with method := "" }

def Contract.withoutMethods (contract : Contract) : Contract :=
  ⟨contract.operations.map Operation.withoutMethod⟩

/-- The notices that are left without those of methods. -/
def Notice.others (notices : List Notice) : List Notice :=
  notices.filter fun notice => !notice.isOfMethod

theorem Notice.others_append (earlier later : List Notice) :
    others (earlier ++ later) = others earlier ++ others later := List.filter_append ..

namespace Recording

/-- The two recordings fail with one fault or end in values that look the same, and the notices of
    the one are those of the other up to methods. -/
def Alike (look : α → γ) (first second : Recording ε α) : Prop :=
  ∃ outcome other notices reported, first.Leaves outcome notices ∧ second.Leaves other reported ∧
    outcome.map look = other.map look ∧ Notice.others notices = Notice.others reported

theorem Leaves.alike {recording : Recording ε α} {outcome : Except ε α} {notices : List Notice}
    (h : recording.Leaves outcome notices) (look : α → γ) : recording.Alike look recording :=
  ⟨outcome, outcome, notices, notices, h, h, rfl, rfl⟩

theorem alike_pure {look : α → γ} {left right : α} (same : look left = look right) :
    Alike look (pure left : Recording ε α) (pure right) :=
  ⟨.ok left, .ok right, [], [], leaves_pure left, leaves_pure right, congrArg Except.ok same, rfl⟩

/-- Recordings that go on alike after values that look the same stay alike. -/
theorem Alike.bind {look : α → γ} {view : β → δ} {first second : Recording ε α}
    {next continued : α → Recording ε β} (h : first.Alike look second)
    (later : ∀ left right, look left = look right → (next left).Alike view (continued right)) :
    (first >>= next).Alike view (second >>= continued) := by
  obtain ⟨outcome, other, notices, reported, hf, hs, ends, seen⟩ := h
  cases outcome with
  | error fault =>
    cases other with
    | error fault' =>
      obtain rfl : fault = fault' := Except.error.inj ends
      exact ⟨.error fault, .error fault, notices, reported, hf.bind_error next,
        hs.bind_error continued, rfl, seen⟩
    | ok right => cases ends
  | ok left =>
    cases other with
    | error fault => cases ends
    | ok right =>
      obtain ⟨outcome, other, more, further, hn, hm, ends', seen'⟩ :=
        later left right (Except.ok.inj ends)
      refine ⟨outcome, other, _, _, hf.bind_ok hn, hs.bind_ok hm, ends', ?_⟩
      rw [Notice.others_append, Notice.others_append, seen, seen']

end Recording

namespace Namer

variable {left right : Namer}

/-- The identifier of a statement and the notice of its number come from the held identifiers. -/
theorem namesOf_of_identifiers (same : left.identifiers = right.identifiers) (statement : String) :
    (left.namesOf statement).identifier = (right.namesOf statement).identifier ∧
      (left.after statement).identifiers = (right.after statement).identifiers ∧
      Notice.others (left.collisions statement) = Notice.others (right.collisions statement) := by
  have identifier : (left.namesOf statement).identifier = (right.namesOf statement).identifier := by
    show (Naming.chooseIdentifier left.identifiers _).1 = _
    rw [same]
    rfl
  have quiet (holder : Option String) (first second : String) : Notice.others
      (holder.map fun holder => Notice.takenMethod holder first second).toList = [] := by
    cases holder <;> rfl
  refine ⟨identifier, ?_, ?_⟩
  · show (_, statement) :: left.identifiers = (_, statement) :: right.identifiers
    rw [identifier, same]
  · unfold collisions
    rw [Notice.others_append, Notice.others_append, quiet, quiet, identifier, same]

theorem nameStatement_alike (same : left.identifiers = right.identifiers) (statement : String) :
    Recording.Alike (fun named : GeneratedNames × Namer => (named.1.identifier, named.2.identifiers))
      (left.nameStatement statement : Recording ε _) (right.nameStatement statement) := by
  obtain ⟨identifier, held, seen⟩ := namesOf_of_identifiers same statement
  exact ⟨_, _, _, _, left.nameStatement_leaves statement, right.nameStatement_leaves statement,
    congrArg Except.ok (Prod.ext identifier held), seen⟩

end Namer

namespace Contract

variable {left right : Namer}

theorem addEntry_alike (same : left.identifiers = right.identifiers) (entry : Entry) :
    Recording.Alike (fun made : Operation × Namer => (made.1.withoutMethod, made.2.identifiers))
      (addEntry left entry) (addEntry right entry) := by
  apply ((Parameters.ofEntry_leaves entry).alike id).bind
  intro parameters other equal
  obtain rfl : parameters = other := equal
  apply (Namer.nameStatement_alike same entry.name).bind
  intro named other alike
  obtain ⟨identifier, held⟩ := Prod.mk.inj alike
  apply Recording.alike_pure
  simp only [Operation.withoutMethod, Operation.ofEntry, identifier, held]

/-- Namers that hold the same identifiers keep doing so, and nothing else decides how a run goes. -/
theorem operationsOf_alike (same : left.identifiers = right.identifiers) (entries : List Entry) :
    Recording.Alike (List.map Operation.withoutMethod)
      (operationsOf left entries) (operationsOf right entries) := by
  induction entries generalizing left right with
  | nil => exact Recording.alike_pure rfl
  | cons entry rest ih =>
    apply (addEntry_alike same entry).bind
    intro made other alike
    obtain ⟨operation, held⟩ := Prod.mk.inj alike
    apply (ih held).bind
    intro operations others equal
    apply Recording.alike_pure
    rw [List.map_cons, List.map_cons, operation, equal]

theorem ofEntries_alike (stripped other : String) (entries : List Entry) :
    Recording.Alike withoutMethods (ofEntries stripped entries) (ofEntries other entries) := by
  have start : (Namer.new stripped).identifiers = (Namer.new other).identifiers := rfl
  apply (operationsOf_alike start entries).bind
  intro operations others equal
  exact Recording.alike_pure (congrArg Contract.mk equal)

end Contract

/-- Whatever word is stripped, a merge succeeds or fails with one conflict, its contract is the same
    up to the methods, and so are its notices up to those of methods. -/
theorem stripped_word_affects_methods_only (statements : List Statement) (stripped other : String)
    (log : NoticeLog) :
    let merged (word : String) :=
      (Contract.ofEntries word (Entry.ofStatements statements)).run.run log
    (merged stripped).1.map Contract.withoutMethods = (merged other).1.map Contract.withoutMethods ∧
      ∃ notices reported, (merged stripped).2 = log.extend notices ∧
        (merged other).2 = log.extend reported ∧
          Notice.others notices = Notice.others reported := by
  intro merged
  obtain ⟨outcome, outcome', notices, reported, first, second, ends, seen⟩ :=
    Contract.ofEntries_alike stripped other (Entry.ofStatements statements)
  have run : merged stripped = (outcome, log.extend notices) := first log
  have run' : merged other = (outcome', log.extend reported) := second log
  rw [run, run']
  exact ⟨ends, notices, reported, rfl, rfl, seen⟩

end QueryContract
