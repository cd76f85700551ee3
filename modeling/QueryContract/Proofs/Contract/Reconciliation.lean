import QueryContract.Proofs.Association
import QueryContract.Proofs.Contract.FirstFault
import QueryContract.Proofs.Contract.Merging

/-!
What the parameters of an entry are, and when there are none. The base alone decides the shapes;
every later variant is compared with it in turn, and the first one that differs ends the work.
-/

namespace QueryContract

def Statement.Compatible (base other : Statement) : Prop :=
  ∀ name left right, base.declaration? name = some left → other.declaration? name = some right →
    left.SameShape right

def Statement.optionalityOf? (name : String) (statement : Statement) : Option (Path × Bool) :=
  (statement.declaration? name).map fun declaration => (statement.file, declaration.optional)

/-- What the statements that declare a parameter say about it, file by file. -/
def Optionality.among (statements : List Statement) (name : String) : Optionality :=
  statements.filterMap (Statement.optionalityOf? name)

/-- The parameters that the base lacks, in the order in which the statements first declare them. -/
def Statement.lackedNames (base : Statement) (statements : List Statement) : List String :=
  ((statements.flatMap (·.declarations.keys)).filter fun name =>
    (base.declaration? name).isNone).eraseDups

/-- The first parameter of the base on which the statement does not have its shape. -/
structure Statement.FirstDifference (base other : Statement) (name : String)
    (left right : Declaration) : Prop where
  first : ∃ before after, base.declarations.pairs = before ++ (name, left) :: after ∧
    ∀ pair ∈ before, ∀ found, other.declaration? pair.1 = some found → pair.2.SameShape found
  declared : other.declaration? name = some right
  differs : ¬left.SameShape right

def Entry.DistinctFiles (entry : Entry) : Prop :=
  entry.variants.Pairwise fun earlier later => earlier.file.same later.file = false

namespace Optionality

theorem among_append (earlier later : List Statement) (name : String) :
    among (earlier ++ later) name = among earlier name ++ among later name :=
  List.filterMap_append

theorem file_of_mem_among {statements : List Statement} {name : String} {pair : Path × Bool}
    (h : pair ∈ among statements name) : ∃ statement ∈ statements, pair.1 = statement.file := by
  obtain ⟨statement, member, found⟩ := List.mem_filterMap.mp h
  obtain ⟨declaration, -, rfl⟩ := Option.map_eq_some_iff.mp found
  exact ⟨statement, member, rfl⟩

end Optionality

theorem Parameters.putFile_of_absent {file : Path} {known : Optionality} (optional : Bool)
    (h : ∀ pair ∈ known, pair.1.same file = false) :
    putFile file optional known = known ++ [(file, optional)] := by
  induction known with
  | nil => rfl
  | cons pair rest ih =>
    obtain ⟨first, value⟩ := pair
    have differs : first.same file = false := h (first, value) List.mem_cons_self
    have later := ih fun other member => h other (List.mem_cons_of_mem _ member)
    rw [putFile, differs, if_neg Bool.false_ne_true, later]
    rfl

/-- A file that was not seen before adds its word at the end. -/
theorem Parameters.putFile_among {seen : List Statement} {other : Statement}
    (fresh : ∀ statement ∈ seen, statement.file.same other.file = false) {name : String}
    {declaration : Declaration} (declared : other.declaration? name = some declaration) :
    putFile other.file declaration.optional (Optionality.among seen name) =
      Optionality.among (seen ++ [other]) name := by
  have absent : ∀ pair ∈ Optionality.among seen name, pair.1.same other.file = false := by
    intro pair member
    obtain ⟨statement, hs, same⟩ := Optionality.file_of_mem_among member
    rw [same]
    exact fresh statement hs
  rw [putFile_of_absent _ absent, Optionality.among_append]
  simp [Optionality.among, Statement.optionalityOf?, declared]

theorem Optionality.among_of_undeclared {seen : List Statement} {other : Statement} {name : String}
    (h : other.declaration? name = none) : among (seen ++ [other]) name = among seen name := by
  rw [among_append]
  simp [among, Statement.optionalityOf?, h]

namespace Parameters

theorem keys_foldl_withAdditional (base other : Statement) (declared : List (String × Declaration))
    {additional : Association String Optionality} {names : List String}
    (h : additional.keys =
      (names.filter fun name => (base.declaration? name).isNone).eraseDups) :
    (declared.foldl (withAdditional base other) additional).keys =
      ((names ++ declared.map Prod.fst).filter fun name =>
        (base.declaration? name).isNone).eraseDups := by
  induction declared generalizing additional names with
  | nil => simpa using h
  | cons pair rest ih =>
    have step : (withAdditional base other additional pair).keys =
        ((names ++ [pair.1]).filter fun name => (base.declaration? name).isNone).eraseDups := by
      rw [withAdditional]
      cases found : base.declaration? pair.1 with
      | some declaration => simpa [found] using h
      | none =>
        rw [Option.isSome_none, if_neg Bool.false_ne_true, List.filter_append,
          Association.keys_put_eq_eraseDups h]
        simp [found]
    have later := ih step
    rw [List.append_assoc] at later
    exact later

theorem get?_foldl_withAdditional (base other : Statement) {name : String}
    (lacked : base.declaration? name = none) (declared : List (String × Declaration))
    (distinct : (declared.map Prod.fst).Nodup) (additional : Association String Optionality) :
    (declared.foldl (withAdditional base other) additional).get? name =
      match declared.lookup name with
      | none => additional.get? name
      | some declaration =>
        some (putFile other.file declaration.optional ((additional.get? name).getD [])) := by
  induction declared generalizing additional with
  | nil => rfl
  | cons pair rest ih =>
    obtain ⟨known, declaration⟩ := pair
    rw [List.map_cons, List.nodup_cons] at distinct
    rw [List.foldl_cons, ih distinct.2]
    by_cases same : name = known
    · subst same
      have absent : rest.lookup name = none := by
        rw [List.lookup_eq_none_iff]
        intro pair member
        have apart : name ≠ pair.1 := fun h =>
          distinct.1 (List.mem_map.mpr ⟨pair, member, h.symm⟩)
        exact bne_iff_ne.mpr apart
      simp [absent, withAdditional, lacked, Association.get?_put]
    · have kept : (withAdditional base other additional (known, declaration)).get? name =
          additional.get? name := by
        rw [withAdditional]
        split
        · rfl
        · rw [Association.get?_put, if_neg same]
      rw [kept, Association.lookup_cons_of_ne same]

/-- The parameters once the base and the variants in `seen` are taken into account. -/
structure Covers (base : Statement) (seen : List Statement) (parameters : Parameters) : Prop where
  canonical : parameters.canonical = base.declarations.pairs.map fun (name, declaration) =>
    ⟨name, declaration, Optionality.among (base :: seen) name⟩
  lacked : parameters.additional.keys = base.lackedNames seen
  known : ∀ name, base.declaration? name = none →
    (parameters.additional.get? name).getD [] = Optionality.among seen name

theorem declaration?_of_mem_pairs {statement : Statement} {pair : String × Declaration}
    (h : pair ∈ statement.declarations.pairs) : statement.declaration? pair.1 = some pair.2 :=
  (Association.get?_eq_some_iff _ _ _).mpr h

theorem covers_ofBase (base : Statement) : Covers base [] (ofBase base) where
  canonical := by
    apply List.map_congr_left
    intro pair member
    simp [Optionality.among, Statement.optionalityOf?, declaration?_of_mem_pairs member]
  lacked := rfl
  known := fun _ _ => rfl

theorem compared_of_compatible {operation : String} {base other : Statement}
    {seen : List Statement} (compatible : base.Compatible other)
    (fresh : ∀ statement ∈ base :: seen, statement.file.same other.file = false)
    {pair : String × Declaration} (h : pair ∈ base.declarations.pairs) :
    compared operation base other ⟨pair.1, pair.2, Optionality.among (base :: seen) pair.1⟩ =
      .ok ⟨pair.1, pair.2, Optionality.among (base :: (seen ++ [other])) pair.1⟩ := by
  rw [compared]
  dsimp only
  cases declared : other.declaration? pair.1 with
  | none =>
    rw [← List.cons_append, Optionality.among_of_undeclared declared]
  | some declaration =>
    have shape := compatible _ _ _ (declaration?_of_mem_pairs h) declared
    have agrees := (Declaration.shapeDifference_eq_nil_iff _ _).mpr shape
    dsimp only
    rw [if_pos agrees, putFile_among fresh declared, List.cons_append]

theorem withVariant_of_compatible (operation : String) {base other : Statement}
    {seen : List Statement} {parameters : Parameters} (covers : Covers base seen parameters)
    (compatible : base.Compatible other)
    (fresh : ∀ statement ∈ base :: seen, statement.file.same other.file = false) :
    ∃ next, withVariant operation base parameters other = .ok next ∧
      Covers base (seen ++ [other]) next := by
  have compares : parameters.canonical.mapM (compared operation base other) =
      .ok (base.declarations.pairs.map fun (name, declaration) =>
        ⟨name, declaration, Optionality.among (base :: (seen ++ [other])) name⟩) := by
    rw [covers.canonical, List.mapM_map]
    exact mapM_eq_ok fun pair member => compared_of_compatible compatible fresh member
  refine ⟨⟨_, additionalAfter base other parameters.additional⟩, ?_, rfl, ?_, ?_⟩
  · rw [withVariant, compares]
    rfl
  · have keys := keys_foldl_withAdditional base other other.declarations.pairs covers.lacked
    rw [additionalAfter, keys, Statement.lackedNames, List.flatMap_append, List.flatMap_singleton]
    rfl
  · intro name lacked
    have found := get?_foldl_withAdditional base other lacked other.declarations.pairs
      other.declarations.distinct parameters.additional
    rw [additionalAfter, found]
    cases declared : other.declarations.pairs.lookup name with
    | none =>
      rw [Optionality.among_of_undeclared declared]
      exact covers.known name lacked
    | some declaration =>
      have fresh' := fun statement member => fresh statement (List.mem_cons_of_mem _ member)
      dsimp only [Option.getD_some]
      rw [covers.known name lacked]
      exact putFile_among fresh' declared

theorem sameShape_of_compared {operation : String} {base other : Statement}
    {parameter value : Parameter} (h : compared operation base other parameter = .ok value)
    {declaration : Declaration} (declared : other.declaration? parameter.name = some declaration) :
    parameter.declaration.SameShape declaration := by
  rw [compared, declared] at h
  dsimp only at h
  split at h
  · rename_i agrees
    exact (Declaration.shapeDifference_eq_nil_iff _ _).mp agrees
  · cases h

theorem conflict_of_compared {operation : String} {base other : Statement} {parameter : Parameter}
    {conflict : Conflict} (h : compared operation base other parameter = .error conflict) :
    ∃ declaration, other.declaration? parameter.name = some declaration ∧
      ¬parameter.declaration.SameShape declaration ∧
      conflict = ⟨operation, parameter.name, base.file, other.file,
        parameter.declaration.shapeDifference declaration⟩ := by
  rw [compared] at h
  cases declared : other.declaration? parameter.name with
  | none => rw [declared] at h; cases h
  | some declaration =>
    rw [declared] at h
    dsimp only at h
    split at h
    · cases h
    · rename_i differs
      have shape := mt (Declaration.shapeDifference_eq_nil_iff _ _).mpr differs
      exact ⟨declaration, rfl, shape, (Except.error.inj h).symm⟩

theorem compatible_of_withVariant {operation : String} {base other : Statement}
    {seen : List Statement} {parameters next : Parameters} (covers : Covers base seen parameters)
    (h : withVariant operation base parameters other = .ok next) : base.Compatible other := by
  intro name left right declared declaredOther
  cases compares : parameters.canonical.mapM (compared operation base other) with
  | error conflict => rw [withVariant, compares] at h; cases h
  | ok canonical =>
    rw [covers.canonical, List.mapM_map] at compares
    have member := (Association.get?_eq_some_iff _ _ _).mp declared
    obtain ⟨value, passes⟩ := ok_of_mapM_eq_ok compares _ member
    exact sameShape_of_compared passes declaredOther

theorem conflict_of_withVariant {operation : String} {base other : Statement}
    {seen : List Statement} {parameters : Parameters} {conflict : Conflict}
    (covers : Covers base seen parameters)
    (h : withVariant operation base parameters other = .error conflict) :
    ∃ name left right, base.FirstDifference other name left right ∧
      conflict = ⟨operation, name, base.file, other.file, left.shapeDifference right⟩ := by
  cases compares : parameters.canonical.mapM (compared operation base other) with
  | ok canonical => rw [withVariant, compares] at h; cases h
  | error found =>
    rw [withVariant, compares] at h
    cases h
    rw [covers.canonical, List.mapM_map] at compares
    obtain ⟨before, pair, after, split, passed, fails⟩ := first_fault_of_mapM compares
    obtain ⟨right, declared, differs, rfl⟩ := conflict_of_compared fails
    refine ⟨pair.1, pair.2, right, ⟨⟨before, after, split, ?_⟩, declared, differs⟩, rfl⟩
    intro earlier member found declaredEarlier
    obtain ⟨value, passes⟩ := passed earlier member
    exact sameShape_of_compared passes declaredEarlier

/-- Among distinct files the next variant has one that was not seen before. -/
theorem fresh_of_distinct {base other : Statement} {seen rest : List Statement}
    (distinct : (base :: (seen ++ other :: rest)).Pairwise fun earlier later =>
      earlier.file.same later.file = false) :
    ∀ statement ∈ base :: seen, statement.file.same other.file = false := by
  rw [← List.cons_append, List.pairwise_append] at distinct
  exact fun statement member => distinct.2.2 statement member other List.mem_cons_self

/-- A run over later variants that ends well has taken in compatible ones only. -/
theorem covers_of_foldlM {operation : String} {base : Statement} {others : List Statement}
    {parameters last : Parameters} {seen : List Statement} (covers : Covers base seen parameters)
    (distinct : (base :: (seen ++ others)).Pairwise fun earlier later =>
      earlier.file.same later.file = false)
    (h : others.foldlM (withVariant operation base) parameters = .ok last) :
    (∀ other ∈ others, base.Compatible other) ∧ Covers base (seen ++ others) last := by
  induction others generalizing seen parameters with
  | nil => cases h; exact ⟨by simp, by simpa using covers⟩
  | cons other rest ih =>
    rw [List.foldlM_cons] at h
    cases taken : withVariant operation base parameters other with
    | error conflict => rw [taken] at h; cases h
    | ok next =>
      rw [taken] at h
      have compatible := compatible_of_withVariant covers taken
      obtain ⟨next', taken', covers'⟩ :=
        withVariant_of_compatible operation covers compatible (fresh_of_distinct distinct)
      rw [taken] at taken'
      cases taken'
      rw [List.append_cons] at distinct ⊢
      obtain ⟨later, ended⟩ := ih covers' distinct h
      exact ⟨List.forall_mem_cons.mpr ⟨compatible, later⟩, ended⟩

end Parameters

/-- The conflict is the one that the first incompatible variant has on its first such parameter. -/
def Conflict.IsFirstOf (conflict : Conflict) (entry : Entry) : Prop :=
  ∃ before other after name left right,
    entry.others = before ++ other :: after ∧
      (∀ earlier ∈ before, entry.base.Compatible earlier) ∧
        entry.base.FirstDifference other name left right ∧
          conflict =
            { operation := entry.name
              parameter := name
              basePath := entry.base.file
              variantPath := other.file
              aspects :=
                (if left.scalar = right.scalar then [] else [.type]) ++
                  (if left.nullable = right.nullable then [] else [.nullable]) ++
                    (if left.list = right.list then [] else [.list]) }

/-- The parameters are those of the base, with all that the variants say about being optional. -/
structure Parameters.Reconcile (parameters : Parameters) (entry : Entry) : Prop where
  declarations : (parameters.canonical.map fun parameter =>
    (parameter.name, parameter.declaration)) = entry.base.declarations.pairs
  optionality : ∀ parameter ∈ parameters.canonical,
    parameter.optionality = Optionality.among entry.variants parameter.name
  additional : parameters.additional.pairs = (entry.base.lackedNames entry.others).map fun name =>
    (name, Optionality.among entry.others name)

namespace Parameters

theorem Covers.get?_of_mem_keys {base : Statement} {seen : List Statement} {parameters : Parameters}
    (covers : Covers base seen parameters) {name : String}
    (member : name ∈ parameters.additional.keys) :
    parameters.additional.get? name = some (Optionality.among seen name) := by
  have held := Association.isSome_get?_iff.mpr member
  obtain ⟨optionality, found⟩ := Option.isSome_iff_exists.mp held
  rw [covers.lacked, Statement.lackedNames, List.mem_eraseDups, List.mem_filter] at member
  have known := covers.known name (Option.isNone_iff_eq_none.mp member.2)
  rw [found, Option.getD_some] at known
  rw [found, known]

theorem Covers.reconcile {entry : Entry} {parameters : Parameters}
    (covers : Covers entry.base entry.others parameters) : parameters.Reconcile entry where
  declarations := by
    rw [covers.canonical, List.map_map]
    exact List.map_id _
  optionality := by
    intro parameter member
    rw [covers.canonical] at member
    obtain ⟨pair, -, rfl⟩ := List.mem_map.mp member
    rfl
  additional := by
    rw [← covers.lacked]
    exact Association.pairs_eq_map fun name member => covers.get?_of_mem_keys member

theorem isFirstOf_of_foldlM {entry : Entry} (distinct : entry.DistinctFiles) {conflict : Conflict}
    (h : entry.others.foldlM (withVariant entry.name entry.base) (ofBase entry.base) =
      .error conflict) : conflict.IsFirstOf entry := by
  obtain ⟨before, other, after, middle, split, passed, fails⟩ := first_fault_of_foldlM h
  have earlier : (entry.base :: ([] ++ before)).Pairwise fun earlier later =>
      earlier.file.same later.file = false := by
    refine List.Pairwise.sublist ?_ distinct
    rw [Entry.variants, split]
    exact (List.sublist_append_left before _).cons_cons _
  obtain ⟨compatible, covers⟩ := covers_of_foldlM (covers_ofBase entry.base) earlier passed
  obtain ⟨name, left, right, differs, rfl⟩ := conflict_of_withVariant covers fails
  refine ⟨before, other, after, name, left, right, split, compatible, differs, ?_⟩
  rw [Declaration.shapeDifference_eq]

theorem compatible_of_ofEntry {entry : Entry} (distinct : entry.DistinctFiles)
    {parameters : Parameters} {log last : NoticeLog}
    (h : (ofEntry entry).run.run log = (.ok parameters, last)) :
    (∀ other ∈ entry.others, entry.base.Compatible other) ∧
      Covers entry.base entry.others parameters := by
  have outcome := ofEntry_answers entry log
  rw [h] at outcome
  exact covers_of_foldlM (covers_ofBase entry.base) distinct outcome.symm

end Parameters

theorem Conflict.IsFirstOf.exists_incompatible {conflict : Conflict} {entry : Entry}
    (h : conflict.IsFirstOf entry) : ∃ other ∈ entry.others, ¬entry.base.Compatible other := by
  obtain ⟨before, other, after, name, left, right, split, -, differs, -⟩ := h
  refine ⟨other, by rw [split]; simp, ?_⟩
  intro compatible
  obtain ⟨declared, rest, pairs, -⟩ := differs.first
  have member : (name, left) ∈ entry.base.declarations.pairs := by rw [pairs]; simp
  exact differs.differs (compatible name left right
    (Parameters.declaration?_of_mem_pairs member) differs.declared)

/-- The variants of an entry have parameters together when all of them are compatible with the base,
    and otherwise the first conflict is reported. -/
theorem reconciliation_decided (entry : Entry) (distinct : entry.DistinctFiles) (log : NoticeLog) :
    ((∃ parameters last, (Parameters.ofEntry entry).run.run log = (.ok parameters, last)) ↔
        ∀ other ∈ entry.others, entry.base.Compatible other) ∧
      (∀ parameters last, (Parameters.ofEntry entry).run.run log = (.ok parameters, last) →
        parameters.Reconcile entry) ∧
      ∀ conflict last, (Parameters.ofEntry entry).run.run log = (.error conflict, last) →
        conflict.IsFirstOf entry := by
  have outcome := Parameters.ofEntry_answers entry log
  cases ended : (Parameters.ofEntry entry).run.run log with
  | mk result last =>
    rw [ended] at outcome
    cases result with
    | ok parameters =>
      obtain ⟨compatible, covers⟩ :=
        Parameters.covers_of_foldlM (Parameters.covers_ofBase entry.base) distinct outcome.symm
      refine ⟨⟨fun _ => compatible, fun _ => ⟨parameters, last, rfl⟩⟩, ?_, ?_⟩
      · intro found later same
        cases same
        exact covers.reconcile
      · intro conflict later same
        cases same
    | error conflict =>
      have first := Parameters.isFirstOf_of_foldlM distinct outcome.symm
      obtain ⟨other, member, incompatible⟩ := first.exists_incompatible
      refine ⟨⟨?_, fun compatible => absurd (compatible other member) incompatible⟩, ?_, ?_⟩
      · rintro ⟨parameters, later, same⟩
        cases same
      · intro parameters later same
        cases same
      · intro found later same
        cases same
        exact first

def listedEntry : Entry :=
  let variant (file : String) (declarations : List (String × Declaration)) : Statement :=
    ⟨"list", "select 1", .ofList declarations, "", ⟨file⟩, 1⟩
  { name := "list"
    base := variant "a.sql" [("id", ⟨.int, false, false, false, none⟩)]
    others :=
      [variant "b.sql" [("id", ⟨.int, false, false, true, none⟩),
        ("tag", ⟨.string, false, false, false, none⟩)],
      variant "c.sql" [("id", ⟨.int, false, true, false, none⟩)]] }

theorem reconciliation_of_listedEntry : listedEntry.DistinctFiles ∧
    ∃ conflict last, (Parameters.ofEntry listedEntry).run.run .empty = (.error conflict, last) ∧
      conflict.IsFirstOf listedEntry := by
  have distinct : listedEntry.DistinctFiles := by unfold Entry.DistinctFiles; decide +kernel
  obtain ⟨-, -, first⟩ := reconciliation_decided listedEntry distinct .empty
  have fails : ((Parameters.ofEntry listedEntry).run.run .empty).1.isOk = false := by decide +kernel
  cases ended : (Parameters.ofEntry listedEntry).run.run .empty with
  | mk result last =>
    rw [ended] at fails
    cases result with
    | ok parameters => cases fails
    | error conflict => exact ⟨distinct, conflict, last, rfl, first conflict last ended⟩

end QueryContract
