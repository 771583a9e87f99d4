import DocGraph.Filter.Leaf
import DocGraph.DotPath
import DocGraph.Schema.Basic

set_option autoImplicit false

namespace DocGraph.Filter

inductive Level where
  | root
  | nested
deriving DecidableEq, Repr

def Level.reserves : Level → String → Bool
  | .root, key => (Combinator.ofWord? key).isSome
  | .nested, key => key == "opr"

def presence (filter : Members) (path : String) : Except Error (Option Bool) :=
  match (Members.get? "opr" filter).bind Json.nonNull? with
  | none => .ok none
  | some (.str text) =>
      match PresenceOperator.ofText? text with
      | some operator => .ok (some (operator == .present))
      | none => .error (.invalidArgument path (.unknownOpr text))
  | some _ => .error (.invalidArgument path .oprNotString)

def presenceEntries (required : Option Bool) : Members :=
  (required.map (fun value => ("$exists", Json.bool value))).toList

def entryUnlessEmpty (key : String) (document : Members) : Members :=
  if document.isEmpty then [] else [(key, .obj document)]

mutual
def fieldEntries (schema : Schema) (field : Field) (path : String) : Json → Outcome Members
  | .null => return []
  | .obj filter =>
      match field.type.composite? with
      | none => do return entryUnlessEmpty path (← LeafFilter.document filter path)
      | some id => do
          let required ← presence filter path
          let composite ← schema.composite id
          if field.type.isList then
            let entries ← objectEntries schema composite .nested "" filter
            let element := Members.ofEntries (presenceEntries required ++ entries)
            return if element.isEmpty then [] else [(path, .obj [("$elemMatch", .obj element)])]
          else
            let entries ← objectEntries schema composite .nested path filter
            return entryUnlessEmpty path (presenceEntries required) ++ entries
  | _ => Outcome.fail (.invalidArgument path .notObject)
termination_by structural filter => filter
def objectEntries (schema : Schema) (composite : Composite) (level : Level) (path : String) :
    Members → Outcome Members
  | [] => return []
  | (key, filter) :: rest => do
      let first ←
        if level.reserves key then pure []
        else do
          let field ← composite.field key
          fieldEntries schema field (DotPath.under path key) filter
      let others ← objectEntries schema composite level path rest
      return first ++ others
termination_by structural members => members
end

def assembled (schema : Schema) (type : CompositeIndex) (filter : Members)
    (combined : Combinator → Outcome Members) : Outcome Members := do
  let composite ← schema.composite type
  let fields ← objectEntries schema composite .root "" filter
  let or ← combined .or
  let and ← combined .and
  let nor ← combined .nor
  return Members.ofEntries (fields ++ or ++ and ++ nor)

mutual
def combined (schema : Schema) (type : CompositeIndex) (combinator : Combinator) :
    Members → Outcome Members
  | [] => return []
  | (key, value) :: rest =>
      if key = combinator.word then combinedEntry schema type combinator value
      else combined schema type combinator rest
termination_by structural filter => filter
def combinedEntry (schema : Schema) (type : CompositeIndex) (combinator : Combinator) :
    Json → Outcome Members
  | .null => return []
  | .arr filters => do
      let documents ← combinedList schema type combinator filters
      return if documents.isEmpty then [] else [(combinator.native, .arr documents)]
  | _ => Outcome.fail (.invalidArgument combinator.word .notFilterList)
termination_by structural value => value
def combinedList (schema : Schema) (type : CompositeIndex) (combinator : Combinator) :
    List Json → Outcome (List Json)
  | [] => return []
  | filter :: rest => do
      let first ← combinedItem schema type combinator filter
      let others ← combinedList schema type combinator rest
      return first :: others
termination_by structural filters => filters
def combinedItem (schema : Schema) (type : CompositeIndex) (combinator : Combinator) :
    Json → Outcome Json
  | .obj filter => do
      return .obj (← assembled schema type filter (fun inner => combined schema type inner filter))
  | _ => Outcome.fail (.invalidArgument combinator.word .notFilterList)
termination_by structural filter => filter
end

def objectDocument (schema : Schema) (type : CompositeIndex) (filter : Members) : Outcome Members :=
  assembled schema type filter (fun combinator => combined schema type combinator filter)

-- The document of a filter argument. A filter that is missing or null matches everything.
def document (schema : Schema) (type : CompositeIndex) (filter : Option Json) : Outcome Members :=
  match filter.bind Json.nonNull? with
  | none => return []
  | some (.obj filter) => objectDocument schema type filter
  | some _ => Outcome.fail (.invalidArgument "" .filterNotObject)

end DocGraph.Filter
