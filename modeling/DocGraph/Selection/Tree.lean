import DocGraph.Schema.Basic

set_option autoImplicit false

namespace DocGraph

inductive SelectionTree where
  | nil
  | leaf (field : Field) (rest : SelectionTree)
  | object (field : Field) (selection : SelectionTree) (rest : SelectionTree)
deriving DecidableEq, Repr

namespace SelectionTree

def isEmpty : SelectionTree → Bool
  | .nil => true
  | _ => false

def has (name : String) : SelectionTree → Bool
  | .nil => false
  | .leaf field rest => field.name == name || rest.has name
  | .object field _ rest => field.name == name || rest.has name

def putLeaf (field : Field) : SelectionTree → SelectionTree
  | .nil => .leaf field .nil
  | .leaf held rest =>
      if held.name = field.name then .leaf held rest else .leaf held (rest.putLeaf field)
  | .object held selection rest =>
      if held.name = field.name then .leaf held rest else .object held selection (rest.putLeaf field)

def putObject (field : Field) (selection : SelectionTree) (join : SelectionTree → SelectionTree) :
    SelectionTree → SelectionTree
  | .nil => .object field selection .nil
  | .leaf held rest =>
      if held.name = field.name then .leaf held rest
      else .leaf held (putObject field selection join rest)
  | .object held inner rest =>
      if held.name = field.name then .object held (join inner) rest
      else .object held inner (putObject field selection join rest)

def merge (tree : SelectionTree) : SelectionTree → SelectionTree
  | .nil => tree
  | .leaf field rest => merge (tree.putLeaf field) rest
  | .object field selection rest =>
      merge (putObject field selection (fun inner => merge inner selection) tree) rest
termination_by structural other => other

end SelectionTree

end DocGraph
