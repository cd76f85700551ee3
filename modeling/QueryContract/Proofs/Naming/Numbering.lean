import QueryContract.Proofs.Naming.Distinct

/-!
The numbers of generated names. Whatever statements a namer has named, the next one gets the names
that it wants if they are free, and else the least free numbers from 2 on, each with one notice that
tells which statement has the wanted name.
-/

namespace QueryContract

open Naming (identifierOf methodOf methodKey)
open Number (showNat)

namespace Naming

/-- What comes out for a wanted name after earlier statements got theirs: the wanted name if it has
    another key than all of them, or else the least free number and the statement to name it after.
    Each earlier name stands behind its statement. -/
inductive Chosen (key : String → String) (numbered : Nat → String)
    (earlier : List (String × String)) (wanted : String) : String → Option String → Prop
  | unchanged (free : ∀ given ∈ earlier, key given.2 ≠ key wanted) :
      Chosen key numbered earlier wanted wanted none
  | numbered {first : String} {number : Nat}
      (taken : ∃ given ∈ earlier, key given.2 = key wanted)
      (holder : ∀ given ∈ earlier, key given.2 = key wanted → given.1 = first)
      (low : 2 ≤ number) (high : number ≤ earlier.length + 1)
      (free : ∀ given ∈ earlier, key given.2 ≠ key (numbered number))
      (least : ∀ n, 2 ≤ n → n < number → ∃ given ∈ earlier, key given.2 = key (numbered n)) :
      Chosen key numbered earlier wanted (numbered number) (some first)

/-- The holders of the keys are the earlier statements, and no two of them have a key together. -/
structure Holders.Records (holders : Holders) (key : String → String)
    (earlier : List (String × String)) : Prop where
  eq : holders = earlier.reverse.map fun given => (key given.2, given.1)
  distinct : (holders.map Prod.fst).Nodup

namespace Holders.Records

variable {holders : Holders} {key : String → String} {earlier : List (String × String)}
  {statement name : String}

theorem mem_keys_iff (h : holders.Records key earlier) :
    key name ∈ holders.map Prod.fst ↔ ∃ given ∈ earlier, key given.2 = key name := by
  simp [h.eq]

theorem length_keys (h : holders.Records key earlier) :
    (holders.map Prod.fst).length = earlier.length := by
  rw [h.eq, List.length_map, List.length_map, List.length_reverse]

theorem taken_iff (h : holders.Records key earlier) :
    holders.taken (key name) = true ↔ ∃ given ∈ earlier, key given.2 = key name :=
  (Holders.taken_eq_true_iff holders _).trans h.mem_keys_iff

theorem cons (h : holders.Records key earlier) (fresh : key name ∉ holders.map Prod.fst) :
    Holders.Records ((key name, statement) :: holders) key (earlier ++ [(statement, name)]) where
  eq := by rw [List.reverse_append, h.eq]; rfl
  distinct := List.nodup_cons.mpr ⟨fresh, h.distinct⟩

/-- A key that is looked up leads to the one statement that has it. -/
theorem holder_of_lookup (h : holders.Records key earlier) {first : String}
    (found : holders.lookup (key name) = some first) :
    ∀ given ∈ earlier, key given.2 = key name → given.1 = first := by
  intro given member same
  have held : (key given.2, given.1) ∈ holders := by
    rw [h.eq]
    exact List.mem_map_of_mem (List.mem_reverse.mpr member)
  have other := (Association.get?_eq_some_iff ⟨holders, h.distinct⟩ _ _).mpr held
  rw [same, Association.get?, found] at other
  exact (Option.some.inj other).symm

theorem choose (h : holders.Records key earlier) {numbered : Nat → String} {wanted : String}
    (injective : ∀ m n, key (numbered m) = key (numbered n) → m = n)
    (apart : ∀ n, key (numbered n) ≠ key wanted) :
    Chosen key numbered earlier wanted (choose key numbered wanted holders).1
      (choose key numbered wanted holders).2 := by
  have free := choose_free key numbered wanted holders injective
  rw [h.mem_keys_iff, not_exists] at free
  unfold Naming.choose at free ⊢
  split
  · rename_i absent
    rw [absent] at free
    exact .unchanged fun given member same => free given ⟨member, same⟩
  · rename_i first found
    rw [found] at free
    have member : key wanted ∈ holders.map Prod.fst := by
      rw [← Holders.taken_eq_true_iff, Holders.taken, found]
      rfl
    have bound := Number.leastFree_lt_add_length injective
      (fun n held => (Holders.taken_eq_true_iff holders _).mp held) member apart 2 holders.length
    rw [h.length_keys] at bound
    exact .numbered (h.mem_keys_iff.mp member) (h.holder_of_lookup found)
      (Number.le_leastFree _ 2 _) (by omega) (fun given member same => free given ⟨member, same⟩)
      fun n low less => h.taken_iff.mp (Number.taken_of_lt_leastFree _ 2 _ n low less)

end Holders.Records

theorem append_ne_self {text suffix : String} (h : suffix ≠ "") : text ++ suffix ≠ text := by
  intro same
  have letters := congrArg String.toList same
  rw [String.toList_append, List.append_right_eq_self, String.toList_eq_nil_iff] at letters
  exact h letters

theorem showNat_ne_empty (n : Nat) : showNat n ≠ "" := by
  intro empty
  have digits : Nat.toDigits 10 n = [] := String.ofList_injective empty
  exact Nat.toDigits_ne_nil digits

theorem chosen_identifier {holders : Holders} {earlier : List (String × String)}
    (h : holders.Records id earlier) (wanted : String) :
    Chosen id (fun n => wanted ++ "_" ++ showNat n) earlier wanted
      (chooseIdentifier holders wanted).1 (chooseIdentifier holders wanted).2 := by
  refine h.choose (fun m n same => ?_) fun n => ?_
  · exact Number.showNat_injective m n (String.append_right_inj _ |>.mp same)
  · rw [id, id, String.append_assoc]
    exact append_ne_self (by simp)

theorem chosen_method {holders : Holders} {earlier : List (String × String)}
    (h : holders.Records methodKey earlier) (wanted : String) :
    Chosen methodKey (fun n => wanted ++ showNat n) earlier wanted
      (chooseMethod holders wanted).1 (chooseMethod holders wanted).2 := by
  refine h.choose (fun m n same => ?_) fun n => ?_
  · simp only [methodKey_append, methodKey_showNat] at same
    exact Number.showNat_injective m n (String.append_right_inj _ |>.mp same)
  · rw [methodKey_append, methodKey_showNat]
    exact append_ne_self (showNat_ne_empty n)

end Naming

namespace Namer

open Naming (Chosen)

variable {stripped : String} {history : List (String × GeneratedNames)} {namer : Namer}

/-- The namer is what a new one has become after it named these statements, oldest first, whatever
    stood in the log each time. -/
inductive Reached (stripped : String) : List (String × GeneratedNames) → Namer → Prop
  | new : Reached stripped [] (.new stripped)
  | named {history : List (String × GeneratedNames)} {namer next : Namer} {statement : String}
      {names : GeneratedNames} {log last : NoticeLog} (reached : Reached stripped history namer)
      (step : (namer.nameStatement statement : Recording Conflict _).run.run log =
        (.ok (names, next), last)) :
      Reached stripped (history ++ [(statement, names)]) next

def identifiersOf (history : List (String × GeneratedNames)) : List (String × String) :=
  history.map fun given => (given.1, given.2.identifier)

def methodsOf (history : List (String × GeneratedNames)) : List (String × String) :=
  history.map fun given => (given.1, given.2.method)

/-- The namer holds the names that were given and no others. -/
structure Keeps (namer : Namer) (stripped : String) (history : List (String × GeneratedNames)) :
    Prop where
  stripped : namer.stripped = stripped
  identifiers : namer.identifiers.Records id (identifiersOf history)
  methods : namer.methods.Records methodKey (methodsOf history)

theorem keeps_new (stripped : String) : (new stripped).Keeps stripped [] :=
  ⟨rfl, ⟨rfl, List.nodup_nil⟩, ⟨rfl, List.nodup_nil⟩⟩

theorem Keeps.after (h : namer.Keeps stripped history) (statement : String) :
    (namer.after statement).Keeps stripped
      (history ++ [(statement, namer.namesOf statement)]) where
  stripped := h.stripped
  identifiers := by
    rw [identifiersOf, List.map_append]
    exact h.identifiers.cons (Naming.chooseIdentifier_free namer.identifiers _)
  methods := by
    rw [methodsOf, List.map_append]
    exact h.methods.cons (Naming.chooseMethod_free namer.methods _)

theorem Reached.after (reached : Reached stripped history namer) (statement : String) :
    Reached stripped (history ++ [(statement, namer.namesOf statement)]) (namer.after statement) :=
  .named reached (namer.nameStatement_leaves statement .empty)

theorem Reached.keeps (reached : Reached stripped history namer) :
    namer.Keeps stripped history := by
  induction reached with
  | new => exact keeps_new stripped
  | named _ step ih =>
    have same := (nameStatement_leaves _ _ _).symm.trans step
    cases same
    exact ih.after _

/-- Each name that a statement gets is the wanted one or has the least free number, and a notice
    stands for each number, with the statement that holds the wanted name. The number is at most one
    more than there are earlier statements. -/
theorem numbers_are_least (reached : Reached stripped history namer) (statement : String)
    (log : NoticeLog) :
    ∃ names next identifierHolder methodHolder notices,
      (namer.nameStatement statement : Recording Conflict _).run.run log =
        (.ok (names, next), log.extend notices) ∧
      Chosen id (fun n => identifierOf statement ++ "_" ++ showNat n) (identifiersOf history)
        (identifierOf statement) names.identifier identifierHolder ∧
      Chosen methodKey (fun n => methodOf stripped names.identifier ++ showNat n)
        (methodsOf history) (methodOf stripped names.identifier) names.method methodHolder ∧
      notices =
        (identifierHolder.map fun first =>
          .takenIdentifier first statement names.identifier).toList ++
        (methodHolder.map fun first => .takenMethod first statement names.method).toList ∧
      ∀ notice ∈ notices, notice.kind = .takenIdentifier ∧ notice.operation = statement := by
  have keeps := reached.keeps
  have identifier := Naming.chosen_identifier keeps.identifiers (identifierOf statement)
  have method := Naming.chosen_method keeps.methods
    (methodOf stripped (namer.namesOf statement).identifier)
  have same := keeps.stripped
  subst same
  refine ⟨namer.namesOf statement, namer.after statement, _, _, _,
    namer.nameStatement_leaves statement log, identifier, method, rfl, fun notice member => ?_⟩
  rcases List.mem_append.mp member with member | member
  · obtain ⟨first, -, rfl⟩ := Option.map_eq_some_iff.mp (Option.mem_toList.mp member)
    exact ⟨rfl, rfl⟩
  · obtain ⟨first, -, rfl⟩ := Option.map_eq_some_iff.mp (Option.mem_toList.mp member)
    exact ⟨rfl, rfl⟩

/-- The third statement wants the method of the first one in another case, and the second one has
    the number 2 of it. -/
theorem numbers_of_sharedMethod : ∃ history namer next identifierHolder methodHolder,
    Reached "" history namer ∧ history.map Prod.fst = ["get-user", "get_user"] ∧
      (namer.nameStatement "getUser" : Recording Conflict _).run.run .empty =
        (.ok (⟨"GETUSER", "getuser3"⟩, next),
          NoticeLog.empty.extend [.takenMethod "get-user" "getUser" "getuser3"]) ∧
      Chosen id (fun n => "GETUSER" ++ "_" ++ showNat n) (identifiersOf history) "GETUSER" "GETUSER"
        identifierHolder ∧
      Chosen methodKey (fun n => "getuser" ++ showNat n) (methodsOf history) "getuser" "getuser3"
        methodHolder := by
  let namer := ((new "").after "get-user").after "get_user"
  have reached : Reached "" _ namer := (Reached.new.after "get-user").after "get_user"
  have given : namer.namesOf "getUser" = ⟨"GETUSER", "getuser3"⟩ := by decide +kernel
  have told : namer.collisions "getUser" = [.takenMethod "get-user" "getUser" "getuser3"] := by
    decide +kernel
  have wantedIdentifier : identifierOf "getUser" = "GETUSER" := by decide +kernel
  have wantedMethod : methodOf "" "GETUSER" = "getuser" := by decide +kernel
  have ran := namer.nameStatement_leaves (ε := Conflict) "getUser" .empty
  rw [given, told] at ran
  obtain ⟨names, next, identifierHolder, methodHolder, notices, again, identifier, method, -⟩ :=
    numbers_are_least reached "getUser" .empty
  have same : names = ⟨"GETUSER", "getuser3"⟩ := by
    cases ran.symm.trans again
    rfl
  subst same
  rw [wantedIdentifier] at identifier
  rw [wantedMethod] at method
  exact ⟨_, namer, _, identifierHolder, methodHolder, reached, rfl, ran, identifier, method⟩

end Namer

end QueryContract
