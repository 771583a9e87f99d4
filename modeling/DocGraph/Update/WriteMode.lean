import DocGraph.Error
import DocGraph.Json.Basic

set_option autoImplicit false

namespace DocGraph

inductive WriteMode where
  /-- Replaces unless the object says otherwise. -/
  | replaceByDefault
  /-- Replaces whatever the object says. -/
  | replace
  /-- Merges unless the object says otherwise. -/
  | merge
deriving DecidableEq, Repr

namespace WriteMode

def ofFlag (overwrite : Bool) : WriteMode := if overwrite then replaceByDefault else merge

def replaces : WriteMode → Option Bool → Bool
  | replace, _ => true
  | _, some explicit => explicit
  | replaceByDefault, none => true
  | merge, none => false

def passedOn (replaces : Bool) : WriteMode := if replaces then replace else merge

end WriteMode

namespace Overwrite

def marker : String := "_OVERWRITE"

def explicit (object : Members) (path : String) : Except Error (Option Bool) :=
  match (Members.get? marker object).bind Json.nonNull? with
  | none => .ok none
  | some (.bool value) => .ok (some value)
  | some _ => .error (.invalidArgument path .overwriteNotBoolean)

def firstExplicit (path : String) : List Members → Except Error (Option Bool)
  | [] => .ok none
  | object :: rest => do
      match ← explicit object path with
      | some value => return some value
      | none => firstExplicit path rest

end Overwrite

end DocGraph
