import DocGraph.GraphQL.Request
import DocGraph.Selection.Tree
/-!
Collecting the requested fields of selection sets against a composite type.

Fields named with two leading underscores ask about the schema and are passed over. A fragment whose type
condition names no composite applies to the type it is found on, and a spread of an undefined fragment
asks for nothing. A fragment is collected once per type it applies to, and a fragment that spreads itself,
directly or through others, asks for nothing where it does.
-/

set_option autoImplicit false

namespace DocGraph

open GraphQL

namespace Selection

abbrev Collected := List ((String × CompositeIndex) × SelectionTree)

def collected? (known : Collected) (fragment : String) (type : CompositeIndex) : Option SelectionTree :=
  (known.find? (fun entry => entry.1 == (fragment, type))).map Prod.snd

def isIntrospective (name : String) : Bool := (Text.after? ['_', '_'] name.toList).isSome

def target (schema : Schema) (type : CompositeIndex) (condition : Option String) : CompositeIndex :=
  (condition.bind schema.compositeNamed?).getD type

abbrev Spread := String → CompositeIndex → Collected → Except Error (SelectionTree × Collected)

def collect (schema : Schema) (spread : Spread) (type : CompositeIndex) :
    SelectionSet → SelectionTree → Collected → Except Error (SelectionTree × Collected)
  | .nil, tree, known => .ok (tree, known)
  | .field _ name _ _ selections rest, tree, known => do
      if isIntrospective name then collect schema spread type rest tree known
      else
        let field ← (← schema.composite type).field name
        match field.type.composite? with
        | some nested =>
            if selections.isEmpty then
              collect schema spread type rest (tree.putLeaf field) known
            else
              let _ ← schema.composite nested
              let (inner, known) ← collect schema spread nested selections .nil known
              let merged := SelectionTree.putObject field inner (fun held => held.merge inner) tree
              collect schema spread type rest merged known
        | none => collect schema spread type rest (tree.putLeaf field) known
  | .inline condition _ selections rest, tree, known => do
      let applied := target schema type condition
      let _ ← schema.composite applied
      let (inner, known) ← collect schema spread applied selections .nil known
      collect schema spread type rest (tree.merge inner) known
  | .spread fragment _ rest, tree, known => do
      let (inner, known) ← spread fragment type known
      collect schema spread type rest (tree.merge inner) known
termination_by structural selections => selections

-- Collects a fragment while those named in `active` are being collected. The first argument bounds
-- how deep fragments nest; since none nests in itself, the number of fragments is enough.
def collectFragment (schema : Schema) (request : Request) : Nat → List String → Spread
  | bound, active, name, type, known =>
      match request.fragment? name with
      | none => .ok (.nil, known)
      | some fragment =>
          let applied := target schema type (some fragment.condition)
          match collected? known name applied with
          | some tree => .ok (tree, known)
          | none =>
              if active.contains name then .ok (.nil, known)
              else
                match bound with
                | 0 => .ok (.nil, known)
                | bound + 1 => do
                    let _ ← schema.composite applied
                    let spread := collectFragment schema request bound (name :: active)
                    let (tree, known) ← collect schema spread applied fragment.selections .nil known
                    return (tree, known ++ [((name, applied), tree)])

def collectAll (schema : Schema) (spread : Spread) (type : CompositeIndex) :
    List SelectionSet → SelectionTree → Collected → Except Error SelectionTree
  | [], tree, _ => .ok tree
  | selections :: rest, tree, known => do
      let _ ← schema.composite type
      let (inner, known) ← collect schema spread type selections .nil known
      collectAll schema spread type rest (tree.merge inner) known

def tree (schema : Schema) (type : CompositeIndex) (request : Request) (key : String) :
    Except Error SelectionTree :=
  collectAll schema (collectFragment schema request request.fragments.length []) type
    (request.answering key) .nil []

end Selection

end DocGraph
