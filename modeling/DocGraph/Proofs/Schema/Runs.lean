import DocGraph.Proofs.Derivation.Sessions
import DocGraph.Proofs.Schema.Declarations
import DocGraph.Proofs.Schema.KnownTypes

set_option autoImplicit false

namespace DocGraph.Schema

def Keeps (schema changed : Schema) : Prop :=
  ∀ id composite, schema.composite id = .ok composite →
    ∃ later, changed.composite id = .ok later ∧ later.name = composite.name ∧ later.kind = composite.kind

theorem keeps_refl (schema : Schema) : Keeps schema schema := fun _ composite found => ⟨composite, found, rfl, rfl⟩

theorem keeps_of_composites (schema changed : Schema) (same : changed.composites = schema.composites) :
    Keeps schema changed := by
  intro id composite found
  refine ⟨composite, ?_, rfl, rfl⟩
  rw [composite_ok, same]
  exact (composite_ok schema id composite).mp found

theorem keeps_trans (first second third : Schema) (earlier : Keeps first second) (later : Keeps second third) :
    Keeps first third := by
  intro id composite found
  obtain ⟨middle, between, named, kinded⟩ := earlier id composite found
  obtain ⟨last, there, name, kind⟩ := later id middle between
  exact ⟨last, there, name.trans named, kind.trans kinded⟩

theorem declared_composite (schema : Schema) (name : String) (kind : CompositeKind) (id : CompositeIndex)
    (declared : schema.declared? name = some (.composite kind id)) :
    ∃ composite, schema.composite id = .ok composite ∧ composite.name = name ∧ composite.kind = kind := by
  unfold declared? at declared
  split at declared
  · rename_i here
    cases declared
    obtain ⟨found, named, later⟩ := Option.bind_eq_some_iff.mp here
    obtain ⟨composite, listed, same⟩ := Option.bind_eq_some_iff.mp later
    cases same
    obtain ⟨_, again, text⟩ := composite_named_found schema name id named
    cases again.symm.trans listed
    exact ⟨composite, (composite_ok schema id composite).mpr listed, text, rfl⟩
  · cases declared
  · split at declared <;> cases declared

theorem add_composite_places (schema changed : Schema) (kind : CompositeKind) (name : String) (id : CompositeIndex)
    (added : schema.addComposite kind name = .ok (id, changed)) :
    Keeps schema changed ∧ ∃ composite, changed.composite id = .ok composite ∧ composite.name = name ∧
      composite.kind = kind := by
  unfold addComposite at added
  split at added
  · cases Except.ok.inj added
    constructor
    · intro other composite found
      refine ⟨composite, ?_, rfl, rfl⟩
      rw [composite_ok] at found ⊢
      rw [List.getElem?_append_left (List.getElem?_eq_some_iff.mp found).1]
      exact found
    · refine ⟨{ name := name, kind := kind }, ?_, rfl, rfl⟩
      rw [composite_ok]
      exact List.getElem?_concat_length
  · rename_i held declared there
    split at added
    · rename_i same
      cases Except.ok.inj added
      exact ⟨keeps_refl schema, same ▸ declared_composite schema name held id there⟩
    · cases added
  · cases added

theorem attempt_keeps (schema changed : Schema) (declaration : Declaration) (answer : Declaration.Answer)
    (made : schema.attempt declaration = .ok (answer, changed)) : Keeps schema changed := by
  cases declaration with
  | composite kind name =>
      obtain ⟨⟨id, _⟩, added, same⟩ := (except_map_ok _ _ _).mp made
      cases same
      exact (add_composite_places schema _ kind name id added).1
  | enum name values =>
      obtain ⟨⟨id, _⟩, added, same⟩ := (except_map_ok _ _ _).mp made
      cases same
      exact keeps_of_composites schema _ (add_enum_composites schema _ name values id added)
  | scalar name =>
      obtain ⟨⟨type, _⟩, added, same⟩ := (except_map_ok _ _ _).mp made
      cases same
      exact keeps_of_composites schema _ (add_scalar_composites schema _ name type added)
  | describe id text =>
      cases Except.ok.inj made
      intro other composite found
      rw [composite_ok] at found
      simp only [setDescription, composite_ok, List.getElem?_modify, found, Option.map_eq_map, Option.map_some]
      split
      · exact ⟨_, rfl, rfl, rfl⟩
      · exact ⟨_, rfl, rfl, rfl⟩
  | describeEnum id text =>
      cases Except.ok.inj made
      exact keeps_of_composites schema _ rfl
  | field owner field =>
      obtain ⟨_, added, same⟩ := (except_map_ok _ _ _).mp made
      cases same
      unfold addField at added
      split at added
      · cases added
      · rename_i extended there
        split at added
        · cases added
        · cases Except.ok.inj added
          intro other composite found
          rw [composite_ok] at found
          by_cases same : owner.index = other.index
          · rw [← same, there] at found
            cases found
            refine ⟨{ extended with fields := extended.fields ++ [field] }, (composite_ok _ other _).mpr ?_, rfl, rfl⟩
            rw [← same]
            exact List.getElem?_set_self (List.getElem?_eq_some_iff.mp there).1
          · refine ⟨composite, (composite_ok _ other _).mpr ?_, rfl, rfl⟩
            rw [List.getElem?_set_ne same]
            exact found

theorem run_places (schema : Schema) (declarations : List Declaration) : Keeps schema (schema.run declarations) :=
  run_keeps (Keeps schema) declarations schema (keeps_refl schema) (fun held declaration answer next before made =>
    keeps_trans schema held next before (attempt_keeps held next declaration answer made))

theorem composite_answered (schema : Schema) (kind : CompositeKind) (name : String) (id : CompositeIndex)
    (answered : (schema.step (.composite kind name)).2 = .ok (.composite id)) :
    ∃ composite, (schema.step (.composite kind name)).1.composite id = .ok composite ∧ composite.name = name ∧
      composite.kind = kind := by
  rcases step_cases schema (.composite kind name) with ⟨answer, made, same⟩ | ⟨error, failed⟩
  · cases answered.symm.trans same
    obtain ⟨⟨held, _⟩, added, same⟩ := (except_map_ok _ _ _).mp made
    cases same
    exact (add_composite_places schema _ kind name id added).2
  · rw [failed] at answered
    cases answered

theorem calls_answered (schema : Schema) (sound : schema.Sound) (id : CompositeIndex)
    (within : id.index < schema.composites.length) (session : Derivation.Session) (call : Derivation.Call)
    (about : call.composite? = some id) : ∃ answer, (session.call schema call).2.2 = .ok answer := by
  have admitted : call.Admitted schema := by
    cases call with
    | leafFilter type => cases about
    | _ => trivial
  cases Derivation.call_ends schema sound session call admitted with
  | refused other same outside result =>
      cases about.symm.trans same
      exact absurd within outside
  | answered needs draft answer _ listed met replied result => exact ⟨answer, by rw [result]⟩

end DocGraph.Schema
