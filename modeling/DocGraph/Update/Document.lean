import DocGraph.DotPath
import DocGraph.Update.WriteMode
/-!
Update arguments, compiled into `$setOnInsert`, `$set` and `$inc`.

A set object that replaces is written as a whole document, and one that merges is written through dotted
paths. Values in extended JSON, objects with one key that starts with `$`, are set as they are.
-/

set_option autoImplicit false

namespace DocGraph.Update

def incPlaceholder : String := "_FICTIVE_INC"

def isExtended : Members → Bool
  | [(key, _)] => key.toList.head? == some '$'
  | _ => false

mutual
def setValue (mode : WriteMode) (path key : String) : Json → Except Error Members
  | .obj object =>
      if isExtended object then .ok [(key, .obj object)]
      else do
        let place := DotPath.under path key
        let replaces := mode.replaces (← Overwrite.explicit object place)
        let entries ← setMembers (WriteMode.passedOn replaces) place object
        return if replaces then [(key, .obj (Members.ofEntries entries))]
          else entries.map (fun entry => (DotPath.under key entry.1, entry.2))
  | value => .ok [(key, value)]
termination_by structural value => value
def setMembers (mode : WriteMode) (path : String) : Members → Except Error Members
  | [] => .ok []
  | (key, value) :: rest => do
      let first ← if key = Overwrite.marker then .ok [] else setValue mode path key value
      let others ← setMembers mode path rest
      return first ++ others
termination_by structural object => object
end

def setDocument (mode : WriteMode) (path : String) (object : Members) : Except Error Members := do
  let replaces := mode.replaces (← Overwrite.explicit object path)
  return Members.ofEntries (← setMembers (WriteMode.passedOn replaces) path object)

mutual
def incValue (path : String) : Json → Except Error Members
  | .null => .ok []
  | .num number => .ok [(path, .num number)]
  | .obj object => incMembers path object
  | _ => .error (.invalidArgument path .incrementNotNumber)
termination_by structural value => value
def incMembers (path : String) : Members → Except Error Members
  | [] => .ok []
  | (key, value) :: rest => do
      let first ← if key = incPlaceholder then .ok [] else incValue (DotPath.under path key) value
      let others ← incMembers path rest
      return first ++ others
termination_by structural object => object
end

def incDocument (object : Members) : Except Error Members := do
  return Members.ofEntries (← incMembers "" object)

def optionalObject (update : Members) (name : String) : Except Error (Option Members) :=
  match (Members.get? name update).bind Json.nonNull? with
  | none => .ok none
  | some (.obj object) => .ok (some object)
  | some _ => .error (.invalidArgument name .notObject)

structure Options where
  upsert : Bool := false
deriving DecidableEq, Repr

def Options.members (options : Options) : Members :=
  if options.upsert then [("upsert", .bool true)] else []

structure Compiled where
  document : Members
  options : Options

def entryUnlessEmpty (key : String) (document : Option Members) : Members :=
  match document with
  | none | some [] => []
  | some document => [(key, .obj document)]

-- Compiles an update argument. A `setOnInsert` asks for an upsert, even an empty one.
def compile (update : Members) (overwrite : Bool) : Except Error Compiled := do
  let onInsert ← optionalObject update "setOnInsert"
  let set ← (← optionalObject update "set").mapM (setDocument (WriteMode.ofFlag overwrite) "set")
  let inc ← (← optionalObject update "inc").mapM incDocument
  return {
    document :=
      (onInsert.map (fun object => ("$setOnInsert", Json.obj object))).toList
        ++ entryUnlessEmpty "$set" set ++ entryUnlessEmpty "$inc" inc
    options := { upsert := onInsert.isSome } }

end DocGraph.Update
