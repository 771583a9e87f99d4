import DocGraph.Proofs.Filter.Leaf

set_option autoImplicit false

namespace DocGraph

namespace Members

theorem get?_iff_mem (key : String) (value : Json) (members : Members) (unique : (keys members).Nodup) :
    get? key members = some value ↔ (key, value) ∈ members :=
  ⟨mem_of_get? key value members, get?_of_mem key value members unique⟩

theorem get?_perm (key : String) (members other : Members) (unique : (keys members).Nodup) (perm : other.Perm members) :
    get? key other = get? key members := by
  have apart : (keys other).Nodup := (perm.map Prod.fst).nodup_iff.mpr unique
  refine Option.ext (fun value => ?_)
  rw [get?_iff_mem key value other apart, get?_iff_mem key value members unique, perm.mem_iff]

end Members

def DeprecatedOperator.Named (operator : DeprecatedOperator) (text : String) : Prop :=
  text = operator.word ∨ text = operator.leaf.native

instance (operator : DeprecatedOperator) (text : String) : Decidable (operator.Named text) :=
  inferInstanceAs (Decidable (_ ∨ _))

theorem DeprecatedOperator.of_text_iff (text : String) (operator : DeprecatedOperator) :
    ofText? text = some operator ↔ operator.Named text := by
  constructor
  · intro found
    have named := List.find?_some found
    rw [Bool.or_eq_true, beq_iff_eq, beq_iff_eq] at named
    exact named.imp Eq.symm Eq.symm
  · rintro (rfl | rfl) <;> cases operator <;> decide

namespace LeafFilter

open Operator (ne)

inductive OprFault (filter : Members) : Fault → Prop where
  | notString (value : Json) (given : Members.get? "opr" filter = some value) (present : value ≠ .null)
      (other : ∀ text, value ≠ .str text) : OprFault filter .oprNotString
  | unknown (text : String) (given : Members.get? "opr" filter = some (.str text))
      (nameless : ∀ operator : DeprecatedOperator, ¬ operator.Named text) : OprFault filter (.unknownOpr text)

-- `opr` asks for an operator whose operand is given: operators on lists take `values`, if that is not null, and others
-- take `value`.
structure Asks (filter : Members) (operator : Operator) (operand : Json) : Prop where
  named : ∃ (text : String) (deprecated : DeprecatedOperator),
    Members.get? "opr" filter = some (.str text) ∧ deprecated.Named text ∧ deprecated.leaf = operator
  given : operator ∈ [Operator.isIn, .nin] ∧ Members.get? "values" filter = some operand ∧ operand ≠ .null ∨
    operator ∉ [Operator.isIn, .nin] ∧ Members.get? "value" filter = some operand

def current (filter : Members) : Members :=
  filter.filterMap (fun entry =>
    if entry.1 = "NEQ" then if "NE" ∈ Members.keys filter then none else some ("NE", entry.2)
    else if isDeprecatedKey entry.1 then none else some entry)

inductive ModernForm (filter : Members) : Members → Prop where
  | kept (settled : ∀ operator operand, Asks filter operator operand → operator.word ∈ Members.keys (current filter)) :
      ModernForm filter (current filter)
  | joined (operator : Operator) (operand : Json) (asks : Asks filter operator operand)
      (free : operator.word ∉ Members.keys (current filter)) :
      ModernForm filter (current filter ++ [(operator.word, operand)])

theorem has_iff (key : String) (members : Members) : Members.has key members = true ↔ key ∈ Members.keys members := by
  rw [Members.has, ← Option.ne_none_iff_isSome, ne_eq, Members.get?_eq_none, Classical.not_not]

theorem renamed_current (filter : Members) : renamed (Members.has ne.word filter) filter = current filter := by
  unfold current
  generalize held : Members.has ne.word filter = hasNe
  have given : ("NE" ∈ Members.keys filter) = (hasNe = true) :=
    propext ((has_iff "NE" filter).symm.trans (by rw [← held]; rfl))
  simp only [given]
  clear held given
  induction filter with
  | nil => rfl
  | cons entry rest ih =>
      rcases entry with ⟨key, value⟩
      rw [renamed, ih, List.filterMap_cons]
      by_cases unequal : key = "NEQ"
      · cases hasNe <;> simp [unequal, Operator.word]
      · by_cases old : isDeprecatedKey key = true <;> simp [unequal, old]

theorem renamed_modern (hasNe : Bool) (filter : Members) (modern : usesDeprecated filter = false) :
    renamed hasNe filter = filter := by
  induction filter with
  | nil => rfl
  | cons entry rest ih =>
      rcases entry with ⟨key, value⟩
      rw [usesDeprecated, List.any_cons, Bool.or_eq_false_iff] at modern
      have other : key ≠ "NEQ" := fun same => absurd modern.1 (by simp [same, isDeprecatedKey])
      rw [renamed, if_neg other, modern.1, if_neg Bool.false_ne_true, ih modern.2]

def isPartOfOpr (key : String) : Bool := key == "opr" || key == "value" || key == "values"

theorem renamed_places (hasNe : Bool) (filter : Members) :
    renamed hasNe (filter.filter (fun entry => !isPartOfOpr entry.1)) = renamed hasNe filter := by
  induction filter with
  | nil => rfl
  | cons entry rest ih =>
      rcases entry with ⟨key, value⟩
      cases part : isPartOfOpr key with
      | true =>
          have other : key ≠ "NEQ" := fun same => absurd part (by simp [same, isPartOfOpr])
          have old : isDeprecatedKey key = true := by
            rw [isDeprecatedKey, ← isPartOfOpr, part, Bool.true_or]
          rw [List.filter_cons_of_neg (by simp [part]), ih, renamed, if_neg other, if_pos old]
      | false => rw [List.filter_cons_of_pos (by simp [part]), renamed, renamed, ih]

theorem operator_key (operator : Operator) : isDeprecatedKey operator.word = false := by
  cases operator <;> decide

theorem current_key (filter : Members) (key : String) (member : key ∈ Members.keys (current filter)) :
    isDeprecatedKey key = false := by
  obtain ⟨⟨name, value⟩, listed, rfl⟩ := List.mem_map.mp member
  obtain ⟨⟨held, operand⟩, _, kept⟩ := List.mem_filterMap.mp listed
  simp only at kept
  split at kept
  · split at kept
    · cases kept
    · cases Option.some.inj kept
      exact operator_key ne
  · split at kept
    · cases kept
    · rename_i modern
      cases Option.some.inj kept
      exact Bool.eq_false_iff.mpr modern

theorem modern_form_key (filter modern : Members) (form : ModernForm filter modern) : usesDeprecated modern = false := by
  have old (key : String) (member : key ∈ Members.keys modern) : isDeprecatedKey key = false := by
    cases form with
    | kept _ => exact current_key filter key member
    | joined operator operand _ _ =>
        rw [Members.keys_append, List.mem_append] at member
        rcases member with held | added
        · exact current_key filter key held
        · exact List.mem_singleton.mp added ▸ operator_key operator
  rw [usesDeprecated, List.any_eq_false]
  exact fun entry listed => Bool.eq_false_iff.mp (old entry.1 (List.mem_map_of_mem listed))

theorem renamed_keeps_found (hasNe : Bool) (filter : Members) (key : String) (modern : isDeprecatedKey key = false)
    (apart : key = "NE" → hasNe = true) : Members.get? key (renamed hasNe filter) = Members.get? key filter := by
  induction filter with
  | nil => rfl
  | cons entry rest ih =>
      rcases entry with ⟨name, value⟩
      by_cases same : name = key
      · subst same
        have other : name ≠ "NEQ" := fun same => absurd modern (by simp [same, isDeprecatedKey])
        simp [renamed, other, modern, Members.get?]
      · rw [renamed, Members.get?, if_neg same, ← ih]
        by_cases unequal : name = "NEQ"
        · rw [if_pos unequal]
          cases hasNe with
          | true => rfl
          | false =>
              have missed : ne.word ≠ key := fun hit => absurd (apart hit.symm) (by decide)
              rw [if_neg Bool.false_ne_true, Members.get?, if_neg missed]
        · rw [if_neg unequal]
          split
          · rfl
          · rw [Members.get?, if_neg same]

theorem renamed_unequal (filter : Members) (absent : "NE" ∉ Members.keys filter) :
    Members.get? "NE" (renamed false filter) = Members.get? "NEQ" filter := by
  induction filter with
  | nil => rfl
  | cons entry rest ih =>
      rcases entry with ⟨name, value⟩
      have other : name ≠ "NE" := fun same => absent (same ▸ List.mem_cons_self ..)
      have later := ih (fun member => absent (List.mem_cons_of_mem _ member))
      rw [renamed, Members.get?]
      by_cases unequal : name = "NEQ"
      · rw [if_pos unequal, if_pos unequal, if_neg Bool.false_ne_true, Members.get?]
        exact if_pos rfl
      · rw [if_neg unequal, if_neg unequal, ← later]
        split
        · rfl
        · rw [Members.get?, if_neg other]

theorem modern_form_keeps (filter modern : Members) (form : ModernForm filter modern) (key : String) (value : Json)
    (found : Members.get? key (current filter) = some value) : Members.get? key modern = some value := by
  cases form with
  | kept _ => exact found
  | joined operator operand _ _ => rw [Members.get?_append, found, Option.some_or]

theorem operator_explicit (filter modern : Members) (form : ModernForm filter modern) (operator : Operator) (value : Json)
    (given : Members.get? operator.word filter = some value) : Members.get? operator.word modern = some value := by
  refine modern_form_keeps filter modern form _ value ?_
  rw [← renamed_current, renamed_keeps_found _ filter _ (operator_key operator) ?_, given]
  intro same
  rw [Members.has, Operator.word, ← same, given]
  rfl

theorem unequal_explicit (filter modern : Members) (form : ModernForm filter modern) (value : Json)
    (absent : "NE" ∉ Members.keys filter) (given : Members.get? "NEQ" filter = some value) :
    Members.get? "NE" modern = some value := by
  refine modern_form_keeps filter modern form _ value ?_
  have hasNe : Members.has ne.word filter = false := Bool.eq_false_iff.mpr (mt (has_iff "NE" filter).mp absent)
  rw [← renamed_current, hasNe, renamed_unequal filter absent, given]

theorem opr_fault_requested (path : String) (filter : Members) (fault : Fault) (wrong : OprFault filter fault) :
    requestedOperator path filter = .error (.invalidArgument path fault) := by
  cases wrong with
  | notString value given present other =>
      rw [requestedOperator, given]
      cases value with
      | null => exact absurd rfl present
      | str text => exact absurd rfl (other text)
      | _ => rfl
  | unknown text given nameless =>
      have unread : DeprecatedOperator.ofText? text = none :=
        Option.eq_none_iff_forall_ne_some.mpr
          (fun operator read => nameless operator ((DeprecatedOperator.of_text_iff text operator).mp read))
      simp only [requestedOperator, given, Option.bind_some, Json.nonNull?, unread]

inductive OprCase (path : String) (filter : Members) : Prop where
  | nothing (silent : ∀ text, Members.get? "opr" filter ≠ some (.str text))
      (requested : requestedOperator path filter = .ok none)
  | operator (text : String) (deprecated : DeprecatedOperator) (given : Members.get? "opr" filter = some (.str text))
      (named : deprecated.Named text) (requested : requestedOperator path filter = .ok (some deprecated.leaf))
  | fault (fault : Fault) (wrong : OprFault filter fault)

theorem opr_cases (path : String) (filter : Members) : OprCase path filter := by
  cases given : Members.get? "opr" filter with
  | none => exact .nothing (by simp [given]) (by rw [requestedOperator, given]; rfl)
  | some value =>
      cases value with
      | null => exact .nothing (by simp [given]) (by rw [requestedOperator, given]; rfl)
      | str text =>
          cases read : DeprecatedOperator.ofText? text with
          | some deprecated =>
              refine .operator text deprecated given ((DeprecatedOperator.of_text_iff text deprecated).mp read) ?_
              simp only [requestedOperator, given, Option.bind_some, Json.nonNull?, read]
          | none =>
              refine .fault _ (.unknown text given (fun operator named => ?_))
              rw [(DeprecatedOperator.of_text_iff text operator).mpr named] at read
              cases read
      | _ => exact .fault _ (.notString _ given nofun nofun)

theorem compares_iff (operator : Operator) : operator.comparesWithList = true ↔ operator ∈ [Operator.isIn, .nin] := by
  cases operator <;> decide

theorem non_null_iff (value operand : Json) : Json.nonNull? value = some operand ↔ value = operand ∧ operand ≠ .null := by
  cases value <;> simp only [Json.nonNull?, Option.some.injEq, reduceCtorEq, false_iff, not_and]
  case null => exact fun same present => present same.symm
  all_goals exact ⟨fun same => ⟨same, same ▸ nofun⟩, And.left⟩

theorem requested_operand_iff (operator : Operator) (filter : Members) (operand : Json) :
    requestedOperand operator filter = some operand ↔
      operator ∈ [Operator.isIn, .nin] ∧ Members.get? "values" filter = some operand ∧ operand ≠ .null ∨
        operator ∉ [Operator.isIn, .nin] ∧ Members.get? "value" filter = some operand := by
  rw [requestedOperand, ← compares_iff]
  cases operator.comparesWithList with
  | true =>
      simp only [if_true, Option.bind_eq_some_iff, non_null_iff, true_and, not_true_eq_false, false_and, or_false]
      refine ⟨?_, fun ⟨found, present⟩ => ⟨operand, found, rfl, present⟩⟩
      rintro ⟨value, found, rfl, present⟩
      exact ⟨found, present⟩
  | false => simp

theorem asks_unique (filter : Members) (text : String) (deprecated : DeprecatedOperator) (operator : Operator)
    (operand : Json) (given : Members.get? "opr" filter = some (.str text)) (named : deprecated.Named text)
    (asks : Asks filter operator operand) : deprecated.leaf = operator := by
  obtain ⟨other, again, found, names, leaf⟩ := asks.named
  cases given.symm.trans found
  have one := ((DeprecatedOperator.of_text_iff text deprecated).mpr named).symm.trans
    ((DeprecatedOperator.of_text_iff text again).mpr names)
  exact Option.some.inj one ▸ leaf

theorem with_requested_form (filter : Members) (text : String) (deprecated : DeprecatedOperator)
    (given : Members.get? "opr" filter = some (.str text)) (named : deprecated.Named text) :
    ModernForm filter (withRequested filter (current filter) (some deprecated.leaf)) := by
  rw [withRequested]
  cases operand : requestedOperand deprecated.leaf filter with
  | none =>
      refine .kept (fun operator value asks => ?_)
      cases asks_unique filter text deprecated operator value given named asks
      cases operand.symm.trans ((requested_operand_iff _ filter value).mpr asks.given)
  | some value =>
      by_cases taken : Members.has deprecated.leaf.word (current filter) = true
      · simp only [if_pos taken]
        refine .kept (fun operator other asks => ?_)
        cases asks_unique filter text deprecated operator other given named asks
        exact (has_iff _ _).mp taken
      · simp only [if_neg taken]
        exact .joined _ value ⟨⟨text, deprecated, given, named, rfl⟩, (requested_operand_iff _ filter value).mp operand⟩
          (mt (has_iff _ _).mpr taken)

theorem modern_result (path : String) (filter : Members) :
    (modern filter path).result = withRequested filter (current filter) <$> requestedOperator path filter := by
  unfold modern
  by_cases deprecated : usesDeprecated filter = true
  · rw [if_pos deprecated, Outcome.bind_result, ← renamed_current]
    change (liftM (requestedOperator path filter) >>= fun operator => pure _ : Outcome Members).result = _
    rw [Outcome.bind_result, Outcome.result_lift]
    rfl
  · have plain := Bool.eq_false_iff.mpr deprecated
    have silent : Members.get? "opr" filter = none := by
      rw [Members.get?_eq_none]
      intro listed
      obtain ⟨entry, member, same⟩ := List.mem_map.mp listed
      exact deprecated (List.any_eq_true.mpr ⟨entry, member, by simp [same, isDeprecatedKey]⟩)
    have requested : requestedOperator path filter = .ok none := by
      rw [requestedOperator, silent]
      rfl
    rw [if_neg deprecated, requested, ← renamed_current, renamed_modern _ filter plain]
    rfl

theorem document_result (path : String) (filter : Members) : (document filter path).result =
    requestedOperator path filter >>= fun requested =>
      modernDocument (withRequested filter (current filter) requested) path := by
  unfold document
  rw [Outcome.bind_result, modern_result]
  cases requestedOperator path filter <;> rfl

theorem document_modern (path : String) (filter : Members) (plain : usesDeprecated filter = false) :
    (document filter path).result = modernDocument filter path := by
  have same : modern filter path = pure filter := by
    rw [modern, plain]
    rfl
  rw [document, same]
  rfl

theorem document_opr_fault (path : String) (filter : Members) (fault : Fault)
    (onOpr : fault = .oprNotString ∨ ∃ text, fault = .unknownOpr text) :
    (document filter path).result = .error (.invalidArgument path fault) ↔ OprFault filter fault := by
  have operators (requested : Option Operator) (read : requestedOperator path filter = .ok requested)
      (failed : (document filter path).result = .error (.invalidArgument path fault)) : False := by
    rw [document_result, read] at failed
    have error := modern_document_fails path _ _ failed
    rcases onOpr with rfl | ⟨text, rfl⟩ <;> cases error
  constructor
  · intro failed
    rcases opr_cases path filter with ⟨_, requested⟩ | ⟨_, _, _, _, requested⟩ | ⟨held, wrong⟩
    · exact (operators _ requested failed).elim
    · exact (operators _ requested failed).elim
    · rw [document_result, opr_fault_requested path filter held wrong] at failed
      cases failed
      exact wrong
  · intro wrong
    rw [document_result, opr_fault_requested path filter fault wrong]
    rfl

theorem document_modern_form (path : String) (filter : Members) (sane : ∀ fault, ¬ OprFault filter fault) :
    ∃ modern, ModernForm filter modern ∧ (document filter path).result = (document modern path).result := by
  rcases opr_cases path filter with ⟨silent, requested⟩ | ⟨text, deprecated, given, named, requested⟩ | ⟨fault, wrong⟩
  · have form : ModernForm filter (current filter) := .kept (fun _ _ asks => by
      obtain ⟨text, _, given, _⟩ := asks.named
      exact absurd given (silent text))
    refine ⟨_, form, ?_⟩
    rw [document_result, requested, document_modern path _ (modern_form_key filter _ form)]
    rfl
  · have form := with_requested_form filter text deprecated given named
    refine ⟨_, form, ?_⟩
    rw [document_result, requested, document_modern path _ (modern_form_key filter _ form)]
    rfl
  · exact absurd wrong (sane fault)

theorem document_places (path : String) (filter other : Members) (unique : (Members.keys filter).Nodup)
    (perm : other.Perm filter)
    (rest : other.filter (fun entry => !isPartOfOpr entry.1) = filter.filter (fun entry => !isPartOfOpr entry.1)) :
    document other path = document filter path := by
  have found (key : String) := Members.get?_perm key filter other unique perm
  have has : Members.has ne.word other = Members.has ne.word filter := by
    rw [Members.has, Members.has, found]
  have old : usesDeprecated other = usesDeprecated filter := by
    rw [Bool.eq_iff_iff, usesDeprecated, usesDeprecated, List.any_eq_true, List.any_eq_true]
    simp only [perm.mem_iff]
  have brought (hasNe : Bool) : renamed hasNe other = renamed hasNe filter := by
    rw [← renamed_places hasNe other, rest, renamed_places]
  have requested : requestedOperator path other = requestedOperator path filter := by
    rw [requestedOperator, requestedOperator, found]
  have operand (operator : Operator) : requestedOperand operator other = requestedOperand operator filter := by
    rw [requestedOperand, requestedOperand, found, found]
  have joined (modern : Members) (operator : Option Operator) :
      withRequested other modern operator = withRequested filter modern operator := by
    cases operator with
    | none => rfl
    | some operator => rw [withRequested, withRequested, operand]
  have same : modern other path = modern filter path := by
    unfold modern
    rw [old, has, brought, requested]
    cases plain : usesDeprecated filter with
    | true =>
        rw [if_pos rfl, if_pos rfl]
        simp only [joined]
    | false =>
        have kept := brought false
        rw [renamed_modern _ other (old.trans plain), renamed_modern _ filter plain] at kept
        rw [kept]
  rw [document, document, same]

theorem deprecated_members_modern (path : String) (filter : Members) :
    (∀ fault, (fault = .oprNotString ∨ ∃ text, fault = .unknownOpr text) →
      ((document filter path).result = .error (.invalidArgument path fault) ↔ OprFault filter fault)) ∧
    ((∀ fault, ¬ OprFault filter fault) → ∃ modern, ModernForm filter modern ∧ usesDeprecated modern = false ∧
      (document filter path).result = (document modern path).result ∧
      (∀ (operator : Operator) value, Members.get? operator.word filter = some value →
        Members.get? operator.word modern = some value) ∧
      (∀ value, "NE" ∉ Members.keys filter → Members.get? "NEQ" filter = some value →
        Members.get? "NE" modern = some value)) ∧
    ∀ other, (Members.keys filter).Nodup → other.Perm filter →
      other.filter (fun entry => !isPartOfOpr entry.1) = filter.filter (fun entry => !isPartOfOpr entry.1) →
      document other path = document filter path := by
  refine ⟨document_opr_fault path filter, fun sane => ?_, document_places path filter⟩
  obtain ⟨modern, form, same⟩ := document_modern_form path filter sane
  exact ⟨modern, form, modern_form_key filter modern form, same, operator_explicit filter modern form,
    unequal_explicit filter modern form⟩

theorem deprecated_members_modern_age :
    let others : Members := [("NEQ", .int 1), ("value", .int 5), ("EQ", .int 2)]
    let filter := ("opr", Json.str "$gt") :: others
    (∃ modern, ModernForm filter modern ∧ usesDeprecated modern = false ∧
      (document filter "age").result = (document modern "age").result ∧
      Members.get? "EQ" modern = some (.int 2) ∧ Members.get? "NE" modern = some (.int 1)) ∧
    document (others ++ [("opr", Json.str "$gt")]) "age" = document filter "age" ∧
    (document [("opr", .str "like")] "age").result = .error (.invalidArgument "age" (.unknownOpr "like")) := by
  intro others filter
  obtain ⟨_, formed, places⟩ := deprecated_members_modern "age" filter
  have sane (fault : Fault) : ¬ OprFault filter fault := by
    rintro (⟨value, given, _, other⟩ | ⟨text, given, nameless⟩)
    · exact other "$gt" (Option.some.inj given).symm
    · cases given
      exact nameless .gt (.inr rfl)
  obtain ⟨modern, form, plain, same, explicit, unequal⟩ := formed sane
  refine ⟨⟨modern, form, plain, same, explicit .eq (.int 2) rfl, unequal (.int 1) (by decide) rfl⟩, ?_, ?_⟩
  · exact places _ (by decide) (List.perm_append_singleton ("opr", Json.str "$gt") others) rfl
  · refine ((deprecated_members_modern "age" [("opr", .str "like")]).1 _ (.inr ⟨"like", rfl⟩)).mpr ?_
    exact .unknown "like" rfl (fun operator => by cases operator <;> decide)

end LeafFilter

end DocGraph
