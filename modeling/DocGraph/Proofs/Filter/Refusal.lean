import DocGraph.Proofs.Filter.Leaf

set_option autoImplicit false

namespace DocGraph.LeafFilter

open Operator (regex options)

def IsOptionalText (value : Json) : Prop := value = .null ∨ ∃ text, value = .str text

structure NegationTyped (negated : Members) : Prop where
  known : ∀ key ∈ Members.keys negated, ∃ operator, Operator.ofWord? key = some operator ∧ operator ≠ .not
  pattern : ∀ value, Members.get? regex.word negated = some value → IsOptionalText value
  flags : ∀ value, Members.get? options.word negated = some value → IsOptionalText value

structure Typed (filter : Members) : Prop where
  known : ∀ key ∈ Members.keys filter, isDeprecatedKey key = true ∨ ∃ operator, Operator.ofWord? key = some operator
  requested : ∀ value, Members.get? "opr" filter = some value →
    value = .null ∨ ∃ text operator, value = .str text ∧ DeprecatedOperator.ofText? text = some operator
  negated : ∀ value, (Operator.not.word, value) ∈ filter →
    value = .null ∨ ∃ negated, value = .obj negated ∧ NegationTyped negated

def MixesIn (negated : Members) : Prop :=
  (∃ pattern, (Members.get? regex.word negated).bind Json.nonNull? = some pattern) ∧ isMixed negated = true

def Mixes (filter : Members) : Prop := ∃ negated, (Operator.not.word, .obj negated) ∈ filter ∧ MixesIn negated

theorem word_of_text (text : String) (operator : Operator) (found : Operator.ofWord? text = some operator) :
    text = operator.word := by
  have hit := List.find?_some found
  exact (beq_iff_eq.mp hit).symm

theorem plain_operators_ok (path : String) (flags : Option Json) (members : Members)
    (known : ∀ key ∈ Members.keys members, ∃ operator, Operator.ofWord? key = some operator ∧ operator ≠ .not) :
    ∃ entries, operatorEntries path flags members = .ok entries := by
  induction members with
  | nil => exact ⟨[], rfl⟩
  | cons entry rest ih =>
      rcases entry with ⟨key, operand⟩
      obtain ⟨others, rests⟩ := ih (fun name member => known name (List.mem_cons_of_mem key member))
      obtain ⟨operator, word, plain⟩ := known key (List.mem_cons_self ..)
      have first : ∃ first, operandEntries path flags operand operator = .ok first := by
        cases operator with
        | not => exact absurd rfl plain
        | _ => exact ⟨_, rfl⟩
      obtain ⟨first, compiled⟩ := first
      exact ⟨_, (operator_entries_cons path key flags operand rest _).mpr
        ⟨operator, first, others, word, compiled, rests, rfl⟩⟩

theorem regular_expression_refuses (path : String) (pattern : Json) (negated : Members)
    (text : ∃ content, pattern = .str content)
    (flags : ∀ value, Members.get? options.word negated = some value → IsOptionalText value) :
    Refuses (fun error => error = .mixedNegation path ∧ isMixed negated = true)
      (regularExpression path pattern negated) := by
  obtain ⟨content, rfl⟩ := text
  cases mixed : isMixed negated with
  | true =>
      have listed := mixed
      unfold isMixed at listed
      have fails : regularExpression path (.str content) negated = .error (.mixedNegation path) := by
        unfold regularExpression
        simp [listed, throw, throwThe, MonadExceptOf.throw, bind, Except.bind]
      rw [fails]
      exact ⟨rfl, rfl⟩
  | false =>
      have read : ∃ held, flagText? (flagsOf negated) = some held := by
        unfold flagsOf
        cases given : Members.get? options.word negated with
        | none => exact ⟨"", rfl⟩
        | some value =>
            rcases flags value given with rfl | ⟨text, rfl⟩
            · exact ⟨"", rfl⟩
            · exact ⟨canonicalFlags text, rfl⟩
      obtain ⟨held, read⟩ := read
      rw [(regular_expression_ok path (.str content) _ negated).mpr ⟨mixed, content, held, rfl, read, rfl⟩]
      rintro error ⟨_, other⟩
      cases other

theorem negation_refuses (path : String) (negated : Members) (typed : NegationTyped negated) :
    Refuses (fun error => error = .mixedNegation path ∧ MixesIn negated) (negationEntries path (.obj negated)) := by
  cases given : (Members.get? regex.word negated).bind Json.nonNull? with
  | none =>
      obtain ⟨inner, compiled⟩ := plain_operators_ok path (flagsOf negated) negated typed.known
      rw [(negation_entries_obj path negated _).mpr (.inr ⟨given, inner, compiled, rfl⟩)]
      rintro error ⟨_, ⟨pattern, other⟩, _⟩
      cases given.symm.trans other
  | some pattern =>
      have text : ∃ content, pattern = .str content := by
        obtain ⟨value, held, kept⟩ := Option.bind_eq_some_iff.mp given
        rcases typed.pattern value held with rfl | ⟨content, rfl⟩
        · cases kept
        · exact ⟨content, (Option.some.inj kept).symm⟩
      have refuses := regular_expression_refuses path pattern negated text typed.flags
      have joined : negationEntries path (.obj negated) =
          regularExpression path pattern negated >>= fun expression => .ok [(Operator.not.native, expression)] := by
        rw [negationEntries, given]
        rfl
      rw [joined]
      refine refuses_congr _ _ _ ?_ (refuses_bind _ _ _ (fun _ => False) refuses (fun _ _ _ => id))
      intro error
      constructor
      · rintro (⟨same, mixed⟩ | impossible)
        · exact ⟨same, ⟨pattern, given⟩, mixed⟩
        · exact impossible.elim
      · rintro ⟨same, _, mixed⟩
        exact .inl ⟨same, mixed⟩

theorem operators_refuse (path : String) (flags : Option Json) (members : Members)
    (known : ∀ key ∈ Members.keys members, ∃ operator, Operator.ofWord? key = some operator)
    (negated : ∀ value, (Operator.not.word, value) ∈ members →
      value = .null ∨ ∃ negated, value = .obj negated ∧ NegationTyped negated) :
    Refuses (fun error => error = .mixedNegation path ∧ Mixes members) (operatorEntries path flags members) := by
  induction members with
  | nil =>
      rintro error ⟨_, negated, member, _⟩
      cases member
  | cons entry rest ih =>
      rcases entry with ⟨key, operand⟩
      obtain ⟨operator, word⟩ := known key (List.mem_cons_self ..)
      have later := ih (fun name member => known name (List.mem_cons_of_mem key member))
        (fun value member => negated value (List.mem_cons_of_mem _ member))
      have here : Refuses (fun error => error = .mixedNegation path ∧ ∃ negated, operator = .not ∧
          operand = .obj negated ∧ MixesIn negated) (operandEntries path flags operand operator) := by
        cases operator with
        | not =>
            have same := word_of_text key .not word
            rcases negated operand (same ▸ List.mem_cons_self ..) with rfl | ⟨held, rfl, typed⟩
            · rintro error ⟨_, _, _, other, _⟩
              cases other
            · refine refuses_congr _ _ _ ?_ (negation_refuses path held typed)
              intro error
              constructor
              · rintro ⟨same, mixes⟩
                exact ⟨same, held, rfl, rfl, mixes⟩
              · rintro ⟨same, _, _, ⟨⟩, mixes⟩
                exact ⟨same, mixes⟩
        | _ =>
            rintro error ⟨_, _, other, _⟩
            cases other
      have joined : operatorEntries path flags ((key, operand) :: rest) =
          operandEntries path flags operand operator >>= fun first =>
            operatorEntries path flags rest >>= fun others => .ok (first ++ others) := by
        rw [operatorEntries, word]
        cases operator <;> rfl
      rw [joined]
      refine refuses_congr _ _ _ ?_ (refuses_bind _ _ _ _ here
        (fun _ _ => refuses_bind _ _ _ (fun _ => False) later (fun _ _ _ => id)))
      intro error
      constructor
      · rintro (⟨same, held, rfl, rfl, mixes⟩ | ⟨same, held, member, mixes⟩ | impossible)
        · exact ⟨same, held, word_of_text key .not word ▸ List.mem_cons_self .., mixes⟩
        · exact ⟨same, held, List.mem_cons_of_mem _ member, mixes⟩
        · exact impossible.elim
      · rintro ⟨same, held, member, mixes⟩
        rcases List.mem_cons.mp member with mine | theirs
        · cases mine
          rw [Operator.ofWord?_word] at word
          exact .inl ⟨same, held, (Option.some.inj word).symm, rfl, mixes⟩
        · exact .inr (.inl ⟨same, held, theirs, mixes⟩)

theorem renamed_members (hasNe : Bool) (filter : Members) (key : String) (value : Json)
    (member : (key, value) ∈ renamed hasNe filter) :
    key = Operator.ne.word ∨ isDeprecatedKey key = false ∧ (key, value) ∈ filter := by
  induction filter with
  | nil => cases member
  | cons entry rest ih =>
      rcases entry with ⟨name, held⟩
      have later (inside : (key, value) ∈ renamed hasNe rest) :
          key = Operator.ne.word ∨ isDeprecatedKey key = false ∧ (key, value) ∈ (name, held) :: rest :=
        (ih inside).imp id (fun found => ⟨found.1, List.mem_cons_of_mem _ found.2⟩)
      rw [renamed] at member
      split at member
      · split at member
        · exact later member
        · rcases List.mem_cons.mp member with mine | theirs
          · cases mine
            exact .inl rfl
          · exact later theirs
      · split at member
        · exact later member
        · rename_i current
          rcases List.mem_cons.mp member with mine | theirs
          · cases mine
            exact .inr ⟨by simpa using current, List.mem_cons_self ..⟩
          · exact later theirs

theorem renamed_keeps (hasNe : Bool) (filter : Members) (key : String) (value : Json)
    (current : isDeprecatedKey key = false) (member : (key, value) ∈ filter) : (key, value) ∈ renamed hasNe filter := by
  induction filter with
  | nil => cases member
  | cons entry rest ih =>
      rcases entry with ⟨name, held⟩
      rw [renamed]
      rcases List.mem_cons.mp member with mine | theirs
      · cases mine
        have other : key ≠ "NEQ" := by
          rintro rfl
          cases current
        rw [if_neg other, if_neg (by simp [current])]
        exact List.mem_cons_self ..
      · have kept := ih theirs
        split
        · split
          · exact kept
          · exact List.mem_cons_of_mem _ kept
        · split
          · exact kept
          · exact List.mem_cons_of_mem _ kept

theorem requested_operator_typed (path : String) (filter : Members) (typed : Typed filter) :
    ∃ operator, requestedOperator path filter = .ok operator ∧ operator ≠ some .not := by
  unfold requestedOperator
  cases given : Members.get? "opr" filter with
  | none => exact ⟨none, rfl, nofun⟩
  | some value =>
      rcases typed.requested value given with rfl | ⟨text, operator, rfl, word⟩
      · exact ⟨none, rfl, nofun⟩
      · simp only [Option.bind_some, Json.nonNull?, word]
        refine ⟨some operator.leaf, rfl, ?_⟩
        cases operator <;> exact nofun

theorem with_requested_members (filter current : Members) (requested : Option Operator) (key : String) (value : Json)
    (member : (key, value) ∈ withRequested filter current requested) :
    (key, value) ∈ current ∨ ∃ operator, requested = some operator ∧ key = operator.word := by
  unfold withRequested at member
  cases requested with
  | none => exact .inl member
  | some operator =>
      simp only at member
      split at member
      · exact .inl member
      · split at member
        · exact .inl member
        · rcases List.mem_append.mp member with held | added
          · exact .inl held
          · cases List.mem_singleton.mp added
            exact .inr ⟨operator, rfl, rfl⟩

theorem with_requested_keeps (filter current : Members) (requested : Option Operator) (entry : String × Json)
    (member : entry ∈ current) : entry ∈ withRequested filter current requested := by
  unfold withRequested
  cases requested with
  | none => exact member
  | some operator =>
      simp only
      split
      · exact member
      · split
        · exact member
        · exact List.mem_append.mpr (.inl member)

theorem modern_typed (path : String) (filter : Members) (typed : Typed filter) :
    ∃ current, (modern filter path).result = .ok current ∧
      (∀ key ∈ Members.keys current, ∃ operator, Operator.ofWord? key = some operator) ∧
      ∀ value, (Operator.not.word, value) ∈ current ↔ (Operator.not.word, value) ∈ filter := by
  unfold modern
  by_cases deprecated : usesDeprecated filter = true
  · rw [if_pos deprecated]
    obtain ⟨requested, found, plain⟩ := requested_operator_typed path filter typed
    let current := withRequested filter (renamed (Members.has Operator.ne.word filter) filter) requested
    refine ⟨current, ?_, ?_, ?_⟩
    · exact (Outcome.result_bind _ _ _).mpr ⟨(), rfl, (Outcome.result_bind _ _ _).mpr ⟨requested, found, rfl⟩⟩
    · intro key listed
      obtain ⟨⟨name, value⟩, member, same⟩ := List.mem_map.mp listed
      cases same
      rcases with_requested_members filter _ requested name value member with held | ⟨operator, _, word⟩
      · rcases renamed_members _ filter name value held with word | ⟨current, inside⟩
        · exact ⟨.ne, word ▸ Operator.ofWord?_word .ne⟩
        · rcases typed.known name (Members.mem_keys_of_mem name value filter inside) with old | known
          · rw [current] at old
            cases old
          · exact known
      · exact ⟨operator, word ▸ Operator.ofWord?_word operator⟩
    · intro value
      constructor
      · intro member
        rcases with_requested_members filter _ requested _ value member with held | ⟨operator, same, word⟩
        · rcases renamed_members _ filter _ value held with word | ⟨_, inside⟩
          · exact absurd word (by decide)
          · exact inside
        · have negates := Operator.ofWord?_word operator
          rw [← word, Operator.ofWord?_word] at negates
          exact absurd (same.trans negates.symm) plain
      · intro member
        exact with_requested_keeps filter _ requested _ (renamed_keeps _ filter _ value (by decide) member)
  · rw [if_neg deprecated]
    refine ⟨filter, rfl, ?_, fun _ => Iff.rfl⟩
    intro key listed
    obtain ⟨entry, member, same⟩ := List.mem_map.mp listed
    rcases typed.known key listed with old | known
    · exact absurd (List.any_eq_true.mpr ⟨entry, member, same ▸ old⟩) deprecated
    · exact known

theorem document_refuses (path : String) (filter : Members) (typed : Typed filter) :
    Refuses (fun error => error = .mixedNegation path ∧ Mixes filter) (document filter path).result := by
  obtain ⟨current, brought, known, negations⟩ := modern_typed path filter typed
  have refuses := operators_refuse path (flagsOf current) current known
    (fun value member => typed.negated value ((negations value).mp member))
  refine refuses_congr _ _ _ ?_ (Outcome.refuses_and_then _ _ (fun _ => False)
    (fun error => error = .mixedNegation path ∧ Mixes current) ?_ ?_)
  · intro error
    constructor
    · rintro (impossible | ⟨same, negated, member, mixes⟩)
      · exact impossible.elim
      · exact ⟨same, negated, (negations _).mp member, mixes⟩
    · rintro ⟨same, negated, member, mixes⟩
      exact .inr ⟨same, negated, (negations _).mpr member, mixes⟩
  · rw [brought]
    exact fun _ => id
  · intro value found
    cases brought.symm.trans found
    refine refuses_congr _ _ _ ?_ (refuses_bind _ _ _ (fun _ => False) refuses (fun _ _ _ => id))
    exact fun error => ⟨fun fault => fault.elim id False.elim, .inl⟩

end DocGraph.LeafFilter
