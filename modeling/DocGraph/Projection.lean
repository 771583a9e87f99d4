import DocGraph.Json.Basic
import DocGraph.Keyed
import DocGraph.Notice
import DocGraph.DotPath
import DocGraph.Selection.Collect

set_option autoImplicit false

namespace DocGraph.Projection

-- The paths of the stored fields that are asked for, root fields named in `excluded` left out.
def storedPaths (computed : FieldTest) (excluded : List String) (path : String) :
    SelectionTree → List String
  | .nil => []
  | .leaf field rest =>
      let others := storedPaths computed excluded path rest
      if excluded.contains field.name || computed field then others
      else DotPath.under path field.name :: others
  | .object field selection rest =>
      let others := storedPaths computed excluded path rest
      if excluded.contains field.name || computed field then others
      else
        let place := DotPath.under path field.name
        let inner := if selection.isEmpty then [place] else storedPaths computed [] place selection
        inner ++ others
termination_by structural tree => tree

def dependenciesAt (path : String) (field : Field) : List String :=
  field.dependencies.map (DotPath.under path)

def computedPaths (computed : FieldTest) (path : String) : SelectionTree → List String
  | .nil => []
  | .leaf field rest =>
      let others := computedPaths computed path rest
      if computed field then dependenciesAt path field ++ others else others
  | .object field selection rest =>
      let others := computedPaths computed path rest
      if computed field then dependenciesAt path field ++ others
      else computedPaths computed (DotPath.under path field.name) selection ++ others
termination_by structural tree => tree

-- Adds a path unless it is covered, in place of the paths that it covers.
def cover (paths : List String) (path : String) : List String :=
  if paths.any (fun held => held == path || DotPath.below path held) then paths
  else paths.filter (fun held => !DotPath.below held path) ++ [path]

def outermost (paths : List String) : List String :=
  paths.filter (fun path => !paths.any (DotPath.below path))

def undeclaredReaders (computed : FieldTest) : SelectionTree → List String
  | .nil => []
  | .leaf field rest | .object field _ rest =>
      let others := undeclaredReaders computed rest
      if computed field && field.readsUndeclared then field.name :: others else others

def noticeFor (schema : Schema) (computed : FieldTest) (type : CompositeIndex) (tree : SelectionTree) :
    Outcome Unit := do
  let fields := undeclaredReaders computed tree
  if fields.isEmpty then return ()
  else
    let composite ← schema.composite type
    Outcome.raise (.undeclaredReaders composite.name fields)

def noticesBelow (schema : Schema) (computed : FieldTest) : SelectionTree → Outcome Unit
  | .nil => return ()
  | .leaf _ rest => noticesBelow schema computed rest
  | .object field selection rest => do
      match field.type.composite? with
      | some type =>
          if computed field then pure ()
          else
            noticeFor schema computed type selection
            noticesBelow schema computed selection
      | none => pure ()
      noticesBelow schema computed rest
termination_by structural tree => tree

def paths (computed : FieldTest) (excluded : List String) (tree : SelectionTree) : List String :=
  let stored := firsts (storedPaths computed excluded "" tree)
  let dependencies := firsts (computedPaths computed "" tree)
  outermost (dependencies.foldl cover stored)

def document (schema : Schema) (type : CompositeIndex) (request : GraphQL.Request) (key : String)
    (excluded : List String) (computed : FieldTest) : Outcome Members := do
  let tree ← Selection.tree schema type request key
  noticeFor schema computed type tree
  noticesBelow schema computed tree
  return (paths computed excluded tree).map (fun path => (path, Json.int 1))

end DocGraph.Projection
