import DocGraph.Error
import DocGraph.Json.Basic
import DocGraph.Operator
import DocGraph.DotPath

set_option autoImplicit false

namespace DocGraph.SortOrder

-- Stands in a sort type that would otherwise have no field, and sorts by nothing.
def placeholder : String := "_FICTIVE_SORT"

def direction (path : String) : Json → Except Error Direction
  | .num (.int value) =>
      match Direction.ofValue? value with
      | some direction => .ok direction
      | none => .error (.invalidArgument path .directionNumber)
  | .num (.double _) => .error (.invalidArgument path .directionNumber)
  | .str text =>
      match Direction.ofWord? text with
      | some direction => .ok direction
      | none => .error (.invalidArgument path (.unknownDirection text))
  | _ => .error (.invalidArgument path .sortValue)

mutual
def valueEntries (path : String) : Json → Except Error Members
  | .null => .ok []
  | .obj sort => entries path sort
  | value => do return [(path, Json.int (← direction path value).value)]
termination_by structural value => value
def entries (path : String) : Members → Except Error Members
  | [] => .ok []
  | (key, value) :: rest => do
      let first ← if key = placeholder then .ok [] else valueEntries (DotPath.under path key) value
      let others ← entries path rest
      return first ++ others
termination_by structural sort => sort
end

def document (sort : Option Json) : Except Error Members :=
  match sort.bind Json.nonNull? with
  | none => .ok []
  | some (.obj sort) => do return Members.ofEntries (← entries "" sort)
  | some _ => .error (.invalidArgument "" .sortNotObject)

end DocGraph.SortOrder
