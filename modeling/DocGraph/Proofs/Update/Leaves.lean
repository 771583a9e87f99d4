import DocGraph.Proofs.Update.Agreement
import DocGraph.Proofs.Update.Positions

set_option autoImplicit false

namespace DocGraph

namespace Members

theorem get?_put_all (key : String) (value : Json) (entries held : Members)
    (only : ∀ entry ∈ entries, entry.1 = key → entry.2 = value)
    (there : get? key held = some value ∨ (key, value) ∈ entries) : get? key (putAll held entries) = some value := by
  induction entries generalizing held with
  | nil => exact there.resolve_right List.not_mem_nil
  | cons entry rest ih =>
      rcases entry with ⟨name, content⟩
      refine ih (put name content held) (fun other later => only other (List.mem_cons_of_mem _ later)) ?_
      by_cases hit : name = key
      · left
        rw [get?_put, if_pos hit]
        exact congrArg some (only (name, content) (List.mem_cons_self ..) hit)
      · rw [get?_put, if_neg hit]
        refine there.imp_right (fun listed => ?_)
        rcases List.mem_cons.mp listed with same | later
        · cases same
          exact absurd rfl hit
        · exact later

theorem get?_of_entries (key : String) (value : Json) (entries : Members) (listed : (key, value) ∈ entries)
    (only : ∀ entry ∈ entries, entry.1 = key → entry.2 = value) : get? key (ofEntries entries) = some value :=
  get?_put_all key value entries [] only (.inr listed)

end Members

namespace Update

open DocGraph.Derivation

-- One of the objects around a place replaces what it is written to.
inductive Replaced : WriteMode → Members → List String → Prop where
  | here (mode : WriteMode) (object : Members) (key : String) (rest : List String)
      (replaces : mode.replaces (Overwrite.flag? object) = true) : Replaced mode object (key :: rest)
  | deeper (mode : WriteMode) (object inner : Members) (key : String) (rest : List String)
      (given : Members.get? key object = some (.obj inner))
      (later : Replaced (WriteMode.passedOn (mode.replaces (Overwrite.flag? object))) inner rest) :
      Replaced mode object (key :: rest)

def Kept (mode : WriteMode) (object : Members) (path : List String) (value : Json) : Prop :=
  setWhole value = true ∨ Replaced mode object path ∧ unmarked value = value

-- One entry leads to the value at a path, and no other one lies along the path.
def LeadsTo (entries : Members) (path : List String) (value : Json) : Prop :=
  ∃ entry ∈ entries, ∃ rest, path = DotPath.segments entry.1 ++ rest ∧ Json.descend rest (some entry.2) = some value ∧
    ∀ other ∈ entries, DotPath.Along (DotPath.segments other.1) path → other = entry

section

variable (layout : Layout) (names : layout.HasPlainNames)

include names in
theorem member_entries (owner : layout.Owner) (object : Members) (mode : WriteMode) (place : String) (entries : Members)
    (key : String) (value : Json) (fits : Fits layout (some Overwrite.marker) owner object)
    (written : setMembers mode place object = .ok entries) (member : (key, value) ∈ object) (plain : key ≠ Overwrite.marker) :
    ∃ first, setValue mode place key value = .ok first ∧ (∀ entry ∈ first, entry ∈ entries) ∧
      ∀ other ∈ entries, ∀ rest, DotPath.Along (DotPath.segments other.1) (key :: rest) → other ∈ first := by
  have joined := (set_members_joined mode place object).symm.trans written
  obtain ⟨first, here, inside⟩ := join_members_mem _ _ object entries key value joined member plain
  refine ⟨first, here, inside, ?_⟩
  intro other listed rest along
  obtain ⟨name, held, theirs, among, apart, compiled, listed⟩ := set_members_entry mode place object entries written other listed
  obtain ⟨field, gives⟩ := fits_member owner object name held fits among (fun same => apart (Option.some.inj same).symm)
  obtain ⟨tail, cut⟩ := set_value_first mode place name held theirs (names owner name field gives.declared).1 compiled other
    listed
  rw [cut, DotPath.along_cons] at along
  obtain ⟨rfl, _⟩ := along
  have distinct := fits_distinct owner object fits
  have mine := Members.get?_of_mem name value object distinct member
  cases mine.symm.trans (Members.get?_of_mem name held object distinct among)
  cases here.symm.trans compiled
  exact listed

theorem leads_alone (entries : Members) (key : String) (held value : Json) (rest : List String)
    (segment : DotPath.IsSegment key) (inside : ∀ entry ∈ [(key, held)], entry ∈ entries)
    (only : ∀ other ∈ entries, ∀ rest, DotPath.Along (DotPath.segments other.1) (key :: rest) → other ∈ [(key, held)])
    (found : Json.descend rest (some held) = some value) : LeadsTo entries (key :: rest) value := by
  refine ⟨(key, held), inside _ (List.mem_singleton.mpr rfl), rest, ?_, found, ?_⟩
  · rw [DotPath.segments_segment key segment]
    rfl
  · intro other listed along
    exact List.mem_singleton.mp (only other listed rest along)

variable {own : Option String}

include names in
theorem placed_opened (owner : layout.Owner) (object : Members) (path : List String) (field : layout.Field) (value : Json)
    (placed : PlacedAt layout own owner object path field value) : isExtended object = false := by
  cases placed with
  | here _ _ key _ _ declared _ given =>
      exact opened_of_plain key value object (Members.mem_of_get? key value object given) (names owner key field declared)
  | deeper _ _ _ inner key through _ _ _ declared _ _ given _ =>
      exact opened_of_plain key _ object (Members.mem_of_get? key _ object given) (names owner key through declared)

include names in
theorem placed_unmarked (owner : layout.Owner) (object : Members) (path : List String) (field : layout.Field) (value : Json)
    (placed : PlacedAt layout (some Overwrite.marker) owner object path field value) :
    Json.descend path (some (.obj (unmarkedMembers object))) = some (unmarked value) := by
  have member (object : Members) (key : String) (value : Json) (other : some Overwrite.marker ≠ some key)
      (given : Members.get? key object = some value) :
      Json.member? key (.obj (unmarkedMembers object)) = some (unmarked value) := by
    have plain : key ≠ Overwrite.marker := fun same => other (congrArg some same.symm)
    rw [Json.member?, Json.members?, Option.bind_some, unmarked_get, if_neg plain, given]
    rfl
  induction placed with
  | here owner object key field value declared other given => exact member object key value other given
  | deeper owner nested object inner key through field rest value declared leads other given later ih =>
      rw [Json.descend, Option.bind_some, member object key _ other given,
        unmarked_opened inner (placed_opened layout names nested inner rest field value later)]
      exact ih

theorem kept_plain (mode : WriteMode) (object : Members) (path : List String) (value : Json)
    (kept : Kept mode object path value) : unmarked value = value :=
  kept.elim (unmarked_whole value) (fun replaced => replaced.2)

include names in
-- The induction is on the place. What a member writes is one entry if its object replaces, and comes from below otherwise.
theorem placed_leads (owner : layout.Owner) (object : Members) (path : List String) (field : layout.Field) (value : Json)
    (placed : PlacedAt layout (some Overwrite.marker) owner object path field value) :
    ∀ (mode : WriteMode) (place : String) (entries : Members), Fits layout (some Overwrite.marker) owner object →
      Json.UniqueKeys (.obj object) →
      setMembers (WriteMode.passedOn (mode.replaces (Overwrite.flag? object))) place object = .ok entries →
      Kept mode object path value → LeadsTo entries path value := by
  induction placed with
  | here owner object key field value declared other given =>
      intro mode place entries fits unique written kept
      have segment := (names owner key field declared).1
      have member := Members.mem_of_get? key value object given
      obtain ⟨first, here, inside, only⟩ := member_entries layout names owner object _ place entries key value fits written
        member (fun same => other (congrArg some same.symm))
      by_cases whole : setWhole value = true
      · rw [set_value_whole _ place key value whole] at here
        cases Except.ok.inj here
        exact leads_alone entries key value value [] segment inside only rfl
      · obtain ⟨replaced, plain⟩ := kept.resolve_left whole
        have replaces : mode.replaces (Overwrite.flag? object) = true := by
          cases replaced with
          | here _ _ _ _ replaces => exact replaces
          | deeper _ _ _ _ _ _ later => cases later
        rw [replaces] at here
        rw [set_value_replacing place key value first (Json.members_unique_mem object key value unique.2 member) here, plain]
          at inside only
        exact leads_alone entries key value value [] segment inside only rfl
  | deeper owner nested object inner key through field rest value declared leads other given later ih =>
      intro mode place entries fits unique written kept
      have segment := (names owner key through declared).1
      have member := Members.mem_of_get? key _ object given
      have opened := placed_opened layout names nested inner rest field value later
      have different := Json.members_unique_mem object key _ unique.2 member
      obtain ⟨first, here, inside, only⟩ := member_entries layout names owner object _ place entries key _ fits written
        member (fun same => other (congrArg some same.symm))
      by_cases nests : (WriteMode.passedOn (mode.replaces (Overwrite.flag? object))).replaces (Overwrite.flag? inner) = true
      · rw [set_value_replaced _ place key inner first opened different nests here] at inside only
        refine leads_alone entries key _ value rest segment inside only ?_
        rw [placed_unmarked layout names nested inner rest field value later, kept_plain mode object _ value kept]
      · obtain ⟨below, compiled, rfl⟩ := set_value_object _ place key inner first opened here
        have fit : Fits layout (some Overwrite.marker) nested inner := by
          obtain ⟨again, gives⟩ := fits_member owner object key _ fits member other
          cases gives.declared.symm.trans declared
          exact gives.fits inner nested rfl leads
        have kept' : Kept (WriteMode.passedOn (mode.replaces (Overwrite.flag? object))) inner rest value := by
          refine kept.imp_right (fun held => ⟨?_, held.2⟩)
          cases held.1 with
          | here _ _ _ _ replaces =>
              rw [replaces] at nests
              exact absurd rfl nests
          | deeper _ _ child _ _ again later =>
              cases again.symm.trans given
              exact later
        obtain ⟨entry, listed, tail, cut, found, alone⟩ := ih _ _ below fit different compiled kept'
        rw [Update.nested, if_neg nests] at inside only
        refine ⟨(DotPath.under key entry.1, entry.2), inside _ (List.mem_map.mpr ⟨entry, listed, rfl⟩), tail, ?_, found, ?_⟩
        · rw [DotPath.segments_under_segment key entry.1 segment, List.cons_append, cut]
        · intro other among along
          obtain ⟨theirs, mine, rfl⟩ := List.mem_map.mp (only other among rest along)
          rw [DotPath.segments_under_segment key theirs.1 segment, DotPath.along_cons] at along
          rw [alone theirs mine along.2]

include names in
theorem set_document_leads (owner : layout.Owner) (object : Members) (path : List String) (field : layout.Field) (value : Json)
    (placed : PlacedAt layout (some Overwrite.marker) owner object path field value) (mode : WriteMode) (place : String)
    (document : Members) (fits : Fits layout (some Overwrite.marker) owner object) (unique : Json.UniqueKeys (.obj object))
    (written : setDocument mode place object = .ok document) (kept : Kept mode object path value) :
    LeadsTo document path value := by
  obtain ⟨entries, compiled, rfl⟩ := set_document_ok mode place object document written
  obtain ⟨entry, listed, rest, cut, found, alone⟩ :=
    placed_leads layout names owner object path field value placed mode place entries fits unique compiled kept
  have only : ∀ other ∈ entries, other.1 = entry.1 → other.2 = entry.2 := by
    intro other among same
    rw [alone other among (.inl ⟨rest, same ▸ cut.symm⟩)]
  have kept := Members.get?_of_entries entry.1 entry.2 entries listed only
  exact ⟨entry, Members.mem_of_get? entry.1 entry.2 _ kept, rest, cut, found, fun other among along =>
    alone other (Members.mem_of_entries other entries among) along⟩

end

def SetLeadsTo (compiled : Compiled) (path : List String) (value : Json) : Prop :=
  ∃ document, Members.get? "$set" compiled.document = some (.obj document) ∧ LeadsTo document path value

theorem compile_leads (layout : Layout) (names : layout.HasPlainNames) (owner : layout.Owner) (update object : Members)
    (overwrite : Bool) (compiled : Compiled) (given : Members.get? "set" update = some (.obj object))
    (fits : Fits layout (some Overwrite.marker) owner object) (unique : Json.UniqueKeys (.obj object))
    (made : compile update overwrite = .ok compiled) (path : List String) (field : layout.Field) (value : Json)
    (placed : PlacedAt layout (some Overwrite.marker) owner object path field value)
    (kept : Kept (WriteMode.ofFlag overwrite) object path value) : SetLeadsTo compiled path value := by
  obtain ⟨document, written, held⟩ := compile_set_given update object overwrite compiled made given
  have leads := set_document_leads layout names owner object path field value placed _ "set" document fits unique written kept
  refine ⟨document, held ?_, leads⟩
  rintro rfl
  obtain ⟨_, listed, _⟩ := leads
  cases listed

theorem set_leads_along (compiled : Compiled) (document : Members) (path : List String) (value : Json)
    (given : Members.get? "$set" compiled.document = some (.obj document)) (leads : SetLeadsTo compiled path value) :
    ∃ key ∈ Members.keys document, DotPath.segments key <+: path := by
  obtain ⟨other, again, entry, listed, rest, cut, _⟩ := leads
  cases given.symm.trans again
  exact ⟨entry.1, Members.mem_keys_of_mem entry.1 entry.2 document listed, rest, cut.symm⟩

-- For every session and every set argument of the type that it derives. The places are those of the input types, and where
-- no targets share a name also those of the schema.
theorem set_values_arrive (text : String) (schema : Schema) (read : Schema.ofText text = .ok schema)
    (session : Session) (reached : session.Reached schema) (type : CompositeIndex) (excluded : List String)
    (within : type.index < schema.composites.length) :
    ∃ name after notices,
      session.call schema (.composite .set type excluded) = (after, notices, .ok (.reference ⟨name⟩)) ∧
      ∀ update object overwrite compiled, Members.get? "set" update = some (.obj object) →
        Json.UniqueKeys (.obj object) → TypeRef.Conforms after.registry schema.scalars ⟨name⟩ (.obj object) →
        compile update overwrite = .ok compiled →
        (∀ path field value, PlacedAt after.registry.layout (some Overwrite.marker) name object path field value →
          Kept (WriteMode.ofFlag overwrite) object path value → SetLeadsTo compiled path value) ∧
        (CollisionFree schema → ∀ path field value,
          PlacedAt schema.layout (some Overwrite.marker) type object path field value →
          Kept (WriteMode.ofFlag overwrite) object path value → SetLeadsTo compiled path value) := by
  have sound := Schema.sound_of_text text schema read
  have names := Schema.plain_of_text text schema read
  obtain ⟨name, after, notices, named, called, grounded, contained⟩ :=
    composite_call schema sound session reached .set type excluded within
  refine ⟨name, after, notices, called, ?_⟩
  intro update object overwrite compiled given unique conforms made
  constructor
  · have isName : TypeRef.IsName ⟨name⟩ := by
      obtain ⟨composite, _, rfl⟩ := (composite_name_ok schema .set type name).mp named
      exact composite_is_name composite.name .set
    have itself := TypeRef.named_of_name ⟨name⟩ isName
    have leads := conforms_entry schema after.registry grounded schema.scalars ⟨name⟩ object isName contained conforms
    have fits := conforms_fits after.registry schema.scalars (some Overwrite.marker) ⟨name⟩ _ object conforms rfl
      (itself.symm ▸ leads)
    rw [itself] at fits
    exact compile_leads _ (registry_plain_names after.registry schema names grounded) name update object overwrite compiled given
      fits unique made
  · intro free
    have shaped := composite_shaped schema after.registry .set (fun _ => True) (fun _ => True) text read free grounded
      (fun _ _ => trivial) _ .set .object type name (.obj object) (.inl (.inl rfl)) (fun _ => rfl) named contained
      (Nat.le_refl _) conforms (fun _ _ => trivial)
    exact compile_leads _ (schema_plain_names schema names) type update object overwrite compiled given
      (shaped_fits type object _ rfl shaped) unique made

def pageText : String :=
  "scalar JSON type Page \x7b payload: JSON, part: Part \x7d type Part \x7b note: JSON, count: Int! \x7d"

def pages : Schema where
  composites := [
    { name := "Page", kind := .object, fields := [
      { name := "payload", type := .scalar (.custom "JSON") },
      { name := "part", type := .named (.composite .object ⟨1⟩) }] },
    { name := "Part", kind := .object, fields := [
      { name := "note", type := .scalar (.custom "JSON") },
      { name := "count", type := .nonNull (.scalar .int) }] }]
  scalars := ["JSON"]

def noted : Json := .obj [("x", Json.int 1), ("y", Json.int 2)]

def writing : Members := [
  ("payload", .obj [("$date", .str "2020")]),
  ("part", .obj [("_OVERWRITE", .bool true), ("note", noted), ("count", Json.int 3)])]

def delivered : Members := [("$set", .obj [
  ("payload", .obj [("$date", .str "2020")]), ("part", .obj [("note", noted), ("count", Json.int 3)])])]

theorem writing_conforms : Conforming .set pageText "PageSetType" pages writing where
  read := by decide +kernel
  free := by decide +kernel
  within := by decide
  answered := by decide +kernel
  unique := by simp [writing, noted, Json.UniqueKeys, Json.MembersUnique, Members.keys, Json.int]
  conforms := TypeRef.conforms_of_checks _ _ 6 _ _ (by decide +kernel)

theorem writing_arrives :
    Conforming .set pageText "PageSetType" pages writing ∧ Session.Reached pages {} ∧
      compile [("set", .obj writing)] false = .ok ⟨delivered, ⟨false⟩⟩ ∧
      SetLeadsTo ⟨delivered, ⟨false⟩⟩ ["payload"] (.obj [("$date", .str "2020")]) ∧
      SetLeadsTo ⟨delivered, ⟨false⟩⟩ ["part", "note"] noted := by
  have compiled : compile [("set", .obj writing)] false = .ok ⟨delivered, ⟨false⟩⟩ := by rfl
  obtain ⟨name, after, notices, called, arrive⟩ :=
    set_values_arrive pageText pages writing_conforms.read {} .fresh ⟨0⟩ [] writing_conforms.within
  obtain ⟨rfl, registry, conforms⟩ := writing_conforms.after_call name after notices called
  obtain ⟨inputs, schemas⟩ := arrive _ writing false _ rfl writing_conforms.unique conforms compiled
  rw [registry] at inputs
  refine ⟨writing_conforms, .fresh, compiled, ?_, ?_⟩
  · exact inputs ["payload"] { name := "payload", type := ⟨"JSON"⟩ } _ (.here _ _ _ _ _ (by rfl) (by decide) rfl) (.inl rfl)
  · have inside : Replaced .merge writing ["part", "note"] := .deeper _ _ _ _ _ rfl (.here _ _ _ _ rfl)
    have part : pages.layout.field? ⟨0⟩ "part" = some { name := "part", type := .named (.composite .object ⟨1⟩) } := by rfl
    have place : pages.layout.field? ⟨1⟩ "note" = some { name := "note", type := .scalar (.custom "JSON") } := by rfl
    have placed : PlacedAt pages.layout (some Overwrite.marker) ⟨0⟩ writing ["part", "note"] _ noted :=
      .deeper _ _ _ _ _ _ _ _ _ part rfl (by decide) rfl (.here _ _ _ _ _ place (by decide) rfl)
    exact schemas writing_conforms.free _ _ noted placed (.inr ⟨inside, rfl⟩)

def unpacking : Members := [("payload", noted)]

def unpacked : Members := [("$set", .obj [("payload.x", Json.int 1), ("payload.y", Json.int 2)])]

theorem unpacking_conforms : Conforming .set pageText "PageSetType" pages unpacking where
  read := by decide +kernel
  free := by decide +kernel
  within := by decide
  answered := by decide +kernel
  unique := by simp [unpacking, noted, Json.UniqueKeys, Json.MembersUnique, Members.keys, Json.int]
  conforms := TypeRef.conforms_of_checks _ _ 6 _ _ (by decide +kernel)

def lampText : String := "type Lamp \x7b _OVERWRITE: Boolean, name: String \x7d"

def lamps : Schema where
  composites := [{ name := "Lamp", kind := .object, fields := [
    { name := "_OVERWRITE", type := .scalar .boolean },
    { name := "name", type := .scalar .string }] }]

def lighting : Members := [("_OVERWRITE", .bool true), ("name", .str "desk")]

def lit : Members := [("$set", .obj [("name", .str "desk")])]

theorem lighting_conforms : Conforming .set lampText "LampSetType" lamps lighting where
  read := by decide +kernel
  free := by decide +kernel
  within := by decide
  answered := by decide +kernel
  unique := by simp [lighting, Json.UniqueKeys, Json.MembersUnique, Members.keys]
  conforms := TypeRef.conforms_of_checks _ _ 6 _ _ (by decide +kernel)

theorem leaves_taken_apart :
    (Conforming .set pageText "PageSetType" pages unpacking ∧
      PlacedAt pages.layout (some Overwrite.marker) ⟨0⟩ unpacking ["payload"]
        { name := "payload", type := .scalar (.custom "JSON") } noted ∧
      compile [("set", .obj unpacking)] false = .ok ⟨unpacked, ⟨false⟩⟩ ∧
      ¬ SetLeadsTo ⟨unpacked, ⟨false⟩⟩ ["payload"] noted) ∧
    (Conforming .set lampText "LampSetType" lamps lighting ∧
      PlacedAt lamps.layout none ⟨0⟩ lighting ["_OVERWRITE"] { name := "_OVERWRITE", type := .scalar .boolean } (.bool true) ∧
      compile [("set", .obj lighting)] false = .ok ⟨lit, ⟨false⟩⟩ ∧
      ¬ SetLeadsTo ⟨lit, ⟨false⟩⟩ ["_OVERWRITE"] (.bool true)) := by
  constructor
  · refine ⟨unpacking_conforms, .here _ _ _ _ _ (by rfl) (by decide) rfl, by rfl, ?_⟩
    intro leads
    obtain ⟨key, listed, inside⟩ := set_leads_along ⟨unpacked, ⟨false⟩⟩ _ _ _ rfl leads
    have none : ∀ key ∈ ["payload.x", "payload.y"], ¬ DotPath.segments key <+: ["payload"] := by decide
    exact none key listed inside
  · refine ⟨lighting_conforms, .here _ _ _ _ _ (by rfl) (by decide) rfl, by rfl, ?_⟩
    intro leads
    obtain ⟨key, listed, inside⟩ := set_leads_along ⟨lit, ⟨false⟩⟩ _ _ _ rfl leads
    have none : ∀ key ∈ ["name"], ¬ DotPath.segments key <+: ["_OVERWRITE"] := by decide
    exact none key listed inside

end Update

end DocGraph
