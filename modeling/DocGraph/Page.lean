import DocGraph.Error
import DocGraph.Json.Basic

set_option autoImplicit false

namespace DocGraph

def isCount (value : Int) : Bool :=
  decide (-0x8000000000000000 ≤ value ∧ value ≤ 0x7fffffffffffffff)

structure Page where
  limit : Option Int := none
  skip : Option Int := none
deriving DecidableEq, Repr

namespace Page

def count? : Option Json → Option (Option Int)
  | none | some .null => some none
  | some (.num (.int value)) => if isCount value then some (some value) else none
  | some _ => none

def ofJson? : Json → Option Page
  | .obj members => do
      return { limit := ← count? (Members.get? "limit" members),
               skip := ← count? (Members.get? "skip" members) }
  | .arr elements =>
      if 2 < elements.length then none
      else do return { limit := ← count? elements[0]?, skip := ← count? elements[1]? }
  | _ => none

def ofArguments (arguments : Members) : Except Error (Option Page) :=
  match (Members.get? "pagination" arguments).bind Json.nonNull? with
  | none => .ok none
  | some value =>
      match ofJson? value with
      | some page => .ok (some page)
      | none => .error (.invalidArgument "pagination" .malformedPage)

end Page

structure FindOptions where
  sort : Option Members := none
  limit : Option Int := none
  skip : Option Int := none

namespace FindOptions

def nonZero? (count : Option Int) : Option Int := count.filter (fun value => value != 0)

def make (sort : Members) (page : Option Page) : FindOptions where
  sort := if sort.isEmpty then none else some sort
  limit := nonZero? (page.bind Page.limit)
  skip := nonZero? (page.bind Page.skip)

def members (options : FindOptions) : Members :=
  (options.sort.map (fun sort => ("sort", Json.obj sort))).toList
    ++ (options.limit.map (fun limit => ("limit", Json.int limit))).toList
    ++ (options.skip.map (fun skip => ("skip", Json.int skip))).toList

end FindOptions

end DocGraph
