import DocGraph.Operation.Update
import DocGraph.Proofs.Derivation.EmptyObjects
import DocGraph.Proofs.Derivation.Notices
import DocGraph.Proofs.Filter.Reached
import DocGraph.Proofs.Schema.Declarations

set_option autoImplicit false

namespace DocGraph

open DocGraph.Derivation

inductive Owner where
  | schema
  | session
deriving DecidableEq, Repr

inductive Compilation where
  | filter (type : CompositeIndex) (filter : Option Json)
  | projection (type : CompositeIndex) (request : GraphQL.Request) (key : String) (excluded : List String)
      (computed : FieldTest)
  | find (type : CompositeIndex) (settings : FindSettings) (arguments : Members) (request : GraphQL.Request) (key : String)
  | update (type : CompositeIndex) (settings : UpdateSettings) (arguments : Members) (request : GraphQL.Request)
      (key : String)

namespace Compilation

def raised (schema : Schema) : Compilation → List Notice
  | .filter type given => (Filter.document schema type given).raised
  | .projection type request key excluded computed =>
      (Projection.document schema type request key excluded computed).raised
  | .find type settings arguments request key =>
      (do let field ← FindField.make schema type settings
          field.command arguments request key : Outcome FindCommand).raised
  | .update type settings arguments request key =>
      (do let field ← UpdateField.make schema type settings
          field.command arguments request key : Outcome UpdateCommand).raised

def filtering? : Compilation → Option (CompositeIndex × Option Json)
  | .filter type given => some (type, given)
  | .projection _ _ _ _ _ => none
  | .find type _ arguments _ _ | .update type _ arguments _ _ => some (type, Members.get? "filter" arguments)

def Reaches (schema : Schema) (compilation : Compilation) (leaf : Members) : Prop :=
  ∃ type given, compilation.filtering? = some (type, given) ∧ Filter.Reaches schema type given leaf

end Compilation

inductive Step where
  | derive (call : Call)
  | clear
  | compile (compilation : Compilation)
  | reset

def Owner.mark : Owner → Step
  | .schema => .reset
  | .session => .clear

/-- A schema in use: the log of its notices, and a session over it. -/
structure Workspace where
  log : NoticeLog := {}
  session : Session := {}

namespace Workspace

def step (schema : Schema) (held : Workspace) : Step → Workspace × List (Owner × Notice)
  | .derive call =>
      let (session, passed, _) := held.session.call schema call
      (⟨held.log, session⟩, passed.map (Prod.mk .session))
  | .clear => (⟨held.log, held.session.clear⟩, [])
  | .compile compilation =>
      let (log, passed) := held.log.report (compilation.raised schema)
      (⟨log, held.session⟩, passed.map (Prod.mk .schema))
  | .reset => (⟨held.log.reset, held.session⟩, [])

def run (schema : Schema) (held : Workspace) : List Step → Workspace × List (Owner × Notice)
  | [] => (held, [])
  | step :: rest =>
      let (next, reports) := held.step schema step
      let (after, later) := next.run schema rest
      (after, reports ++ later)

end Workspace

namespace Owner

def log (held : Workspace) : Owner → NoticeLog
  | schema => held.log
  | session => held.session.log

def notices (owner : Owner) (reports : List (Owner × Notice)) : List Notice :=
  reports.filterMap (fun report => if report.1 = owner then some report.2 else none)

structure Cycle (owner : Owner) (before cycle : List Step) : Prop where
  begins : before = [] ∨ ∃ earlier, before = earlier ++ [owner.mark]
  lasts : owner.mark ∉ cycle

theorem notices_append (owner : Owner) (first second : List (Owner × Notice)) :
    owner.notices (first ++ second) = owner.notices first ++ owner.notices second := List.filterMap_append

theorem notices_own (owner : Owner) (passed : List Notice) : owner.notices (passed.map (Prod.mk owner)) = passed := by
  simp only [notices, List.filterMap_map, Function.comp_def, if_true, List.filterMap_some]

theorem notices_other (owner other : Owner) (passed : List Notice) (different : other ≠ owner) :
    owner.notices (passed.map (Prod.mk other)) = [] := by
  refine List.filterMap_eq_nil_iff.mpr (fun report member => ?_)
  obtain ⟨_, _, rfl⟩ := List.mem_map.mp member
  exact if_neg different

end Owner

section

variable (schema : Schema)

theorem projection_silent (type : CompositeIndex) (request : GraphQL.Request) (key : String) (excluded : List String)
    (computed : FieldTest) :
    .deprecatedLeafFilter ∉ (Projection.document schema type request key excluded computed).raised := by
  have level (type : CompositeIndex) (tree : SelectionTree) :
      .deprecatedLeafFilter ∉ (Projection.noticeFor schema computed type tree).raised := by
    unfold Projection.noticeFor
    dsimp only
    split
    · exact List.not_mem_nil
    · refine Outcome.not_raised_bind _ _ _ List.not_mem_nil (fun composite => ?_)
      simp [Outcome.raise]
  have below (tree : SelectionTree) : .deprecatedLeafFilter ∉ (Projection.noticesBelow schema computed tree).raised := by
    induction tree with
    | nil => exact List.not_mem_nil
    | leaf field rest ih => exact ih
    | object field selection rest inner later =>
        rw [Projection.noticesBelow]
        split
        · rename_i nested refers
          split
          · exact later
          · refine Outcome.not_raised_bind _ _ _ (level nested selection) (fun _ => ?_)
            exact Outcome.not_raised_bind _ _ _ inner (fun _ => later)
        · exact later
  unfold Projection.document
  refine Outcome.not_raised_bind _ _ _ List.not_mem_nil (fun tree => ?_)
  refine Outcome.not_raised_bind _ _ _ (level type tree) (fun _ => ?_)
  exact Outcome.not_raised_bind _ _ _ (below tree) (fun _ => List.not_mem_nil)

theorem optional_projection_silent (skipped : Bool) (type : CompositeIndex) (request : GraphQL.Request) (key : String)
    (excluded : List String) (computed : FieldTest) : .deprecatedLeafFilter ∉ ((if skipped then pure none
      else some <$> Projection.document schema type request key excluded computed : Outcome (Option Members))).raised := by
  split
  · exact List.not_mem_nil
  · change .deprecatedLeafFilter ∉
      (Projection.document schema type request key excluded computed >>= fun paths => pure (some paths)).raised
    rw [Outcome.raised_return]
    exact projection_silent schema type request key excluded computed

theorem find_raises (field : FindField) (arguments : Members) (request : GraphQL.Request) (key : String) :
    .deprecatedLeafFilter ∈ (field.command arguments request key).raised ↔
      .deprecatedLeafFilter ∈ (Filter.document field.schema field.type (Members.get? "filter" arguments)).raised := by
  refine (Outcome.mem_raised_then _ _ _ False (fun filter => iff_of_false ?_ id)).trans (by rw [and_false, or_false])
  refine Outcome.not_raised_bind _ _ _ (optional_projection_silent _ _ _ _ _ _ _) (fun projection => ?_)
  refine Outcome.not_raised_bind _ _ _ List.not_mem_nil (fun sort => ?_)
  exact Outcome.not_raised_bind _ _ _ List.not_mem_nil (fun page => List.not_mem_nil)

theorem update_raises (field : UpdateField) (arguments : Members) (request : GraphQL.Request) (key : String) :
    .deprecatedLeafFilter ∈ (field.command arguments request key).raised ↔
      .deprecatedLeafFilter ∈ (Filter.document field.schema field.type (Members.get? "filter" arguments)).raised := by
  refine (Outcome.mem_raised_then _ _ _ False (fun filter => iff_of_false ?_ id)).trans (by rw [and_false, or_false])
  refine Outcome.not_raised_bind _ _ _ List.not_mem_nil (fun update => ?_)
  refine Outcome.not_raised_bind _ _ _ List.not_mem_nil (fun _ => ?_)
  refine Outcome.not_raised_bind _ _ _ List.not_mem_nil (fun compiled => ?_)
  exact Outcome.not_raised_bind _ _ _ (optional_projection_silent _ _ _ _ _ _ _) (fun projection => List.not_mem_nil)

theorem made_raises {α β : Type} (make : Except Error α) (field : α) (command : α → Outcome β) (type : CompositeIndex)
    (filter : Option Json) (made : make = (schema.composite type).map (fun _ => field))
    (raises : .deprecatedLeafFilter ∈ (command field).raised ↔
      .deprecatedLeafFilter ∈ (Filter.document schema type filter).raised) :
    .deprecatedLeafFilter ∈ ((liftM make : Outcome α) >>= command).raised ↔
      ∃ leaf, Filter.Reaches schema type filter leaf ∧ LeafFilter.Deprecated leaf := by
  rw [Outcome.mem_raised_lift_bind, made]
  cases found : schema.composite type with
  | error error =>
      refine iff_of_false (by simp [Except.map]) ?_
      rintro ⟨leaf, ⟨_, _, reached⟩, _⟩
      obtain ⟨composite, again⟩ := Filter.reaches_within schema type _ leaf reached
      cases again.symm.trans found
  | ok composite => simp [Except.map, raises, Filter.document_raises]

theorem compilation_raises (compilation : Compilation) : .deprecatedLeafFilter ∈ compilation.raised schema ↔
    ∃ leaf, compilation.Reaches schema leaf ∧ LeafFilter.Deprecated leaf := by
  have filtering (type : CompositeIndex) (filter : Option Json) (leaf : Members)
      (given : compilation.filtering? = some (type, filter)) :
      compilation.Reaches schema leaf ↔ Filter.Reaches schema type filter leaf := by
    simp [Compilation.Reaches, given]
  cases compilation with
  | filter type filter =>
      simp only [filtering type filter _ rfl]
      exact Filter.document_raises schema type filter
  | projection type request key excluded computed =>
      refine iff_of_false (projection_silent schema type request key excluded computed) ?_
      rintro ⟨_, ⟨_, _, ⟨⟩, _⟩, _⟩
  | find type settings arguments request key =>
      simp only [filtering type _ _ rfl]
      refine made_raises schema _ ⟨schema, type, settings⟩ _ type _ ?_ (find_raises _ arguments request key)
      unfold FindField.make
      cases schema.composite type <;> rfl
  | update type settings arguments request key =>
      simp only [filtering type _ _ rfl]
      refine made_raises schema _ ⟨schema, type, settings⟩ _ type _ ?_ (update_raises _ arguments request key)
      unfold UpdateField.make
      cases schema.composite type <;> rfl

theorem run_keeps (owner : Owner) (kept : Workspace → List Step → List Notice → Prop) (steps : List Step)
    (keeps : ∀ step ∈ steps, ∀ held done notices, kept held done notices →
      kept (held.step schema step).1 (done ++ [step]) (notices ++ owner.notices (held.step schema step).2))
    (held : Workspace) (done : List Step) (notices : List Notice) (start : kept held done notices) :
    kept (held.run schema steps).1 (done ++ steps) (notices ++ owner.notices (held.run schema steps).2) := by
  induction steps generalizing held done notices with
  | nil =>
      rw [List.append_nil, Workspace.run, Owner.notices, List.filterMap_nil, List.append_nil]
      exact start
  | cons step rest ih =>
      have first := keeps step (List.mem_cons_self ..) held done notices start
      have later := ih (fun other member => keeps other (List.mem_cons_of_mem step member)) _ _ _ first
      rwa [List.append_assoc, List.append_assoc, ← Owner.notices_append] at later

theorem run_snoc (held : Workspace) (steps : List Step) (last : Step) :
    (held.run schema (steps ++ [last])).1 = ((held.run schema steps).1.step schema last).1 := by
  induction steps generalizing held with
  | nil => rfl
  | cons step rest ih => exact ih (held.step schema step).1

def Owner.due (held : Workspace) (done : List Step) : Owner → Notice → Prop
  | .schema, notice => ∃ compilation, .compile compilation ∈ done ∧ notice ∈ compilation.raised schema
  | .session, notice => Due schema held.session.registry notice

structure Owner.Informed (owner : Owner) (held : Workspace) (step : Step) (raised : List Notice) : Prop where
  log : owner.log (held.step schema step).1 = ((owner.log held).report raised).1
  passed : owner.notices (held.step schema step).2 = ((owner.log held).report raised).2

theorem compile_informed (held : Workspace) (compilation : Compilation) :
    Owner.Informed schema .schema held (.compile compilation) (compilation.raised schema) :=
  ⟨rfl, Owner.notices_own _ _⟩

theorem derive_informed (held : Workspace) (call : Call) (raised : List Notice)
    (log : (held.session.call schema call).1.log = (held.session.log.report raised).1)
    (passed : (held.session.call schema call).2.1 = (held.session.log.report raised).2) :
    Owner.Informed schema .session held (.derive call) raised :=
  ⟨log, (Owner.notices_own _ _).trans passed⟩

inductive Owner.Sees (held : Workspace) : Owner → Step → Prop where
  | compilation (compilation : Compilation) : Sees held .schema (.compile compilation)
  | call (call : Call) : Sees held .session (.derive call)
  | nothing (owner : Owner) (step : Step) (informed : owner.Informed schema held step [])
      (same : ∀ done notice, owner.due schema (held.step schema step).1 (done ++ [step]) notice ↔
        owner.due schema held done notice) : Sees held owner step

theorem step_seen (owner : Owner) (held : Workspace) (step : Step) (inside : step ≠ owner.mark) :
    owner.Sees schema held step := by
  cases owner with
  | schema =>
      cases step with
      | derive call =>
          exact .nothing .schema _ ⟨rfl, Owner.notices_other _ _ _ (by decide)⟩ (by simp [Owner.due])
      | clear => exact .nothing .schema _ ⟨rfl, rfl⟩ (by simp [Owner.due])
      | compile compilation => exact .compilation compilation
      | reset => exact absurd rfl inside
  | session =>
      cases step with
      | derive call => exact .call call
      | clear => exact absurd rfl inside
      | compile compilation =>
          exact .nothing .session _ ⟨rfl, Owner.notices_other _ _ _ (by decide)⟩ (fun _ _ => Iff.rfl)
      | reset => exact .nothing .session _ ⟨rfl, rfl⟩ (fun _ _ => Iff.rfl)

theorem step_informs (owner : Owner) (held : Workspace) (step : Step) (inside : step ≠ owner.mark) :
    ∃ raised, owner.Informed schema held step raised := by
  cases step_seen schema owner held step inside with
  | compilation compilation => exact ⟨_, compile_informed schema held compilation⟩
  | call call =>
      obtain ⟨raised, log, passed⟩ := call_reports schema held.session call
      exact ⟨raised, derive_informed schema held call raised log passed⟩
  | nothing _ _ informed _ => exact ⟨[], informed⟩

theorem step_raises_due (sound : schema.Sound) (free : CollisionFree schema) (owner : Owner) (held : Workspace)
    (done : List Step) (step : Step) (inside : step ≠ owner.mark)
    (apart : owner = .session → ∀ call, step = .derive call → call.Apart schema) :
    ∃ raised, owner.Informed schema held step raised ∧
      ∀ notice, owner.due schema (held.step schema step).1 (done ++ [step]) notice ↔
        owner.due schema held done notice ∨ notice ∈ raised := by
  cases step_seen schema owner held step inside with
  | compilation compilation =>
      refine ⟨_, compile_informed schema held compilation, fun notice => ?_⟩
      simp [Owner.due, or_and_right, exists_or]
  | call call =>
      obtain ⟨raised, log, passed, due⟩ := call_informs schema sound free held.session call (apart rfl call rfl)
      exact ⟨raised, derive_informed schema held call raised log passed, due⟩
  | nothing _ _ informed same =>
      exact ⟨[], informed, fun notice => (same done notice).trans (or_iff_left List.not_mem_nil).symm⟩

theorem cycle_begins (owner : Owner) (before cycle : List Step) (whole : owner.Cycle before cycle) :
    owner.log (Workspace.run schema {} before).1 = {} ∧
      ∀ notice, ¬ owner.due schema (Workspace.run schema {} before).1 [] notice := by
  have nothing (notice : Notice) : ¬ Due schema {} notice := by
    rintro ⟨_, ⟨_, _, _, _, held⟩, _⟩
    cases held
  rcases whole.begins with rfl | ⟨earlier, rfl⟩
  · cases owner with
    | schema => exact ⟨rfl, by simp [Owner.due]⟩
    | session => exact ⟨rfl, nothing⟩
  · rw [run_snoc]
    cases owner with
    | schema => exact ⟨rfl, by simp [Owner.due]⟩
    | session => exact ⟨rfl, nothing⟩

theorem reported_once_a_cycle (owner : Owner) (before cycle : List Step) (whole : owner.Cycle before cycle) :
    let start := (Workspace.run schema {} before).1
    ((owner.notices (start.run schema cycle).2).map Notice.subject).Nodup := by
  intro start
  have fresh : owner.log start = {} := (cycle_begins schema owner before cycle whole).1
  have kept := run_keeps schema owner (fun held _ notices => ∃ due, (owner.log held).Account notices due) cycle
    (fun step member held done notices kept => by
      obtain ⟨due, account⟩ := kept
      obtain ⟨raised, log, passed⟩ := step_informs schema owner held step (fun same => whole.lasts (same ▸ member))
      rw [log, passed]
      exact ⟨_, NoticeLog.account_report account raised _ (fun notice => Iff.rfl)⟩)
    start [] [] ⟨fun _ => False, fresh ▸ NoticeLog.account_fresh (fun _ => id)⟩
  obtain ⟨due, account⟩ := kept
  exact NoticeLog.reported_once account

theorem cycle_account (sound : schema.Sound) (free : CollisionFree schema) (owner : Owner) (before cycle : List Step)
    (whole : owner.Cycle before cycle)
    (apart : owner = .session → ∀ call, .derive call ∈ cycle → call.Apart schema) :
    let start := (Workspace.run schema {} before).1
    (owner.log (start.run schema cycle).1).Account (owner.notices (start.run schema cycle).2)
      (owner.due schema (start.run schema cycle).1 cycle) := by
  intro start
  obtain ⟨fresh, nothing⟩ := cycle_begins schema owner before cycle whole
  exact run_keeps schema owner (fun held done notices => (owner.log held).Account notices (owner.due schema held done))
    cycle (fun step member held done notices account => by
      obtain ⟨raised, ⟨log, passed⟩, due⟩ := step_raises_due schema sound free owner held done step
        (fun same => whole.lasts (same ▸ member)) (fun session call same => apart session call (same ▸ member))
      rw [log, passed]
      exact NoticeLog.account_report account raised _ due)
    start [] [] (fresh ▸ NoticeLog.account_fresh nothing)

theorem due_unique (apart : schema.NamesApart) (registry : Registry) (notice other : Notice)
    (due : Due schema registry notice) (again : Due schema registry other) (same : other.subject = notice.subject) :
    other = notice := by
  obtain ⟨id, _, composite, found, _, rfl⟩ := due
  obtain ⟨held, _, second, here, _, rfl⟩ := again
  have names : second.name = composite.name := Subject.undeclaredReaders.inj same
  cases Schema.composite_index_unique schema apart held id second composite here found names
  cases here.symm.trans found
  rfl

end

-- In each cycle of the schema and of the session notices are about different subjects, and none is missing: the schema
-- gives notice of deprecated leaf filters exactly if a compilation reaches one, and the session of computed fields without
-- declared dependencies exactly in the composites of which a filter type is registered. Leaf filters of an enum that no field is
-- of would register its copy, whose name must be apart, too; for enums of fields that follows from the names of the schema.
theorem cycles_report_all_once (text : String) (schema : Schema) (read : Schema.ofText text = .ok schema)
    (free : CollisionFree schema) (owner : Owner) (before cycle : List Step) (whole : owner.Cycle before cycle) :
    let start := (Workspace.run schema {} before).1
    let after := (start.run schema cycle).1
    let notices := owner.notices (start.run schema cycle).2
    (notices.map Notice.subject).Nodup ∧
      (owner = .schema → (.deprecatedLeafFilter ∈ notices ↔ ∃ compilation leaf, .compile compilation ∈ cycle ∧
        compilation.Reaches schema leaf ∧ LeafFilter.Deprecated leaf)) ∧
      (owner = .session → (∀ call, .derive call ∈ cycle → call.Apart schema) → ∀ notice, notice ∈ notices ↔
        ∃ id composite, schema.composite id = .ok composite ∧ Filtered schema after.session.registry id ∧
          composite.fields.filter Field.readsUndeclared ≠ [] ∧
          notice = .undeclaredReaders composite.name
            ((composite.fields.filter Field.readsUndeclared).map Field.name)) := by
  intro start after notices
  have sound := Schema.sound_of_text text schema read
  refine ⟨reported_once_a_cycle schema owner before cycle whole, ?_, ?_⟩
  · rintro rfl
    have account := cycle_account schema sound free .schema before cycle whole nofun
    refine (NoticeLog.reported_iff account _ (fun other _ _ same => ?_)).trans ?_
    · cases other with
      | undeclaredReaders type fields => cases same
      | deprecatedLeafFilter => rfl
    · simp only [Owner.due, compilation_raises]
      constructor
      · rintro ⟨compilation, member, leaf, reached, deprecated⟩
        exact ⟨compilation, leaf, member, reached, deprecated⟩
      · rintro ⟨compilation, leaf, member, reached, deprecated⟩
        exact ⟨compilation, member, leaf, reached, deprecated⟩
  · rintro rfl apart notice
    have account := cycle_account schema sound free .session before cycle whole (fun _ => apart)
    refine (NoticeLog.reported_iff account notice
      (due_unique schema (Schema.names_apart_of_text text schema read) _ notice)).trans ?_
    constructor
    · rintro ⟨id, filtered, composite, found, some, same⟩
      exact ⟨id, composite, found, filtered, fun none => some (congrArg _ none), same⟩
    · rintro ⟨id, composite, found, filtered, some, same⟩
      exact ⟨id, filtered, composite, found, fun none => some (List.map_eq_nil_iff.mp none), same⟩

def likeFilter : Json := .obj [("name", .obj [("opr", .str "like")])]

def beforeParcels : List Step := [.derive (.composite .filter ⟨0⟩ []), .compile (.filter ⟨0⟩ (some likeFilter))]

def parcelCycle : List Step :=
  [.derive (.composite .insert ⟨0⟩ []), .compile (.filter ⟨0⟩ (some likeFilter)),
    .derive (.queryArguments ⟨0⟩ ["name"]), .derive (.leafFilter (.list (.scalar .string))),
    .compile (.filter ⟨0⟩ (some likeFilter))]

theorem parcel_cycles : Schema.ofText parcelText = .ok parcels ∧ CollisionFree parcels ∧
    (∀ owner : Owner, owner.Cycle (beforeParcels ++ [owner.mark]) parcelCycle) ∧
    (Filter.document parcels ⟨0⟩ (some likeFilter)).result = .error (.invalidArgument "name" (.unknownOpr "like")) ∧
    .deprecatedLeafFilter ∈
      Owner.schema.notices ((Workspace.run parcels {} (beforeParcels ++ [.reset])).1.run parcels parcelCycle).2 ∧
    .undeclaredReaders "Stamp" ["label"] ∈
      Owner.session.notices ((Workspace.run parcels {} (beforeParcels ++ [.clear])).1.run parcels parcelCycle).2 := by
  have read : Schema.ofText parcelText = .ok parcels := by decide +kernel
  have free : CollisionFree parcels := by decide +kernel
  have whole (owner : Owner) : owner.Cycle (beforeParcels ++ [owner.mark]) parcelCycle :=
    ⟨.inr ⟨beforeParcels, rfl⟩, by cases owner <;> simp [parcelCycle, Owner.mark]⟩
  obtain ⟨_, deprecated, _⟩ := cycles_report_all_once parcelText parcels read free .schema _ _ (whole .schema)
  obtain ⟨_, _, undeclared⟩ := cycles_report_all_once parcelText parcels read free .session _ _ (whole .session)
  have reached : Compilation.Reaches parcels (.filter ⟨0⟩ (some likeFilter)) [("opr", .str "like")] :=
    ⟨_, _, rfl, _, rfl, .fields _ _ _ rfl
      (.entry _ _ _ "name" _ [] [] _ _ _ rfl ⟨[], rfl⟩ (by decide) rfl (.leaf _ _ _ rfl))⟩
  have apart (call : Call) (member : .derive call ∈ parcelCycle) : call.Apart parcels := by
    by_cases asked : call = .leafFilter (.list (.scalar .string))
    · have sound := Schema.sound_of_text parcelText parcels read
      exact asked ▸ field_filter_apart parcels sound free _ (.scalar .string) (by decide) rfl
    · rintro type id rfl
      exact absurd (by simpa [parcelCycle] using member) asked
  refine ⟨read, free, whole, rfl, (deprecated rfl).mpr ⟨_, _, ?_, reached, "opr", by decide, by decide⟩, ?_⟩
  · simp [parcelCycle]
  · refine (undeclared rfl apart _).mpr ⟨⟨1⟩, _, rfl, ⟨.objectFilter, by decide, "StampObjectFilterType", ?_, ?_⟩, ?_, rfl⟩
    · decide +kernel
    · decide +kernel
    · decide

end DocGraph
