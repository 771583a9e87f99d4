import DocGraph.Json.Basic
import DocGraph.Notice
import DocGraph.Operator

set_option autoImplicit false

namespace DocGraph.LeafFilter

open Operator (regex options not ne)

def isDeprecatedKey (key : String) : Bool :=
  key == "opr" || key == "value" || key == "values" || key == "NEQ"

def usesDeprecated (filter : Members) : Bool := filter.any (fun entry => isDeprecatedKey entry.1)

-- The members other than `opr`, `value` and `values`, with `NE` in the place of a `NEQ` unless `NE`
-- is given too.
def renamed (hasNe : Bool) : Members → Members
  | [] => []
  | (key, value) :: rest =>
      if key = "NEQ" then
        if hasNe then renamed hasNe rest else (ne.word, value) :: renamed hasNe rest
      else if isDeprecatedKey key then renamed hasNe rest
      else (key, value) :: renamed hasNe rest

def requestedOperator (path : String) (filter : Members) : Except Error (Option Operator) :=
  match (Members.get? "opr" filter).bind Json.nonNull? with
  | none => .ok none
  | some (.str text) =>
      match DeprecatedOperator.ofText? text with
      | some operator => .ok (some operator.leaf)
      | none => .error (.invalidArgument path (.unknownOpr text))
  | some _ => .error (.invalidArgument path .oprNotString)

-- What `opr` compares with: `values` for operators on lists, and otherwise `value`, null included.
def requestedOperand (operator : Operator) (filter : Members) : Option Json :=
  if operator.comparesWithList then (Members.get? "values" filter).bind Json.nonNull?
  else Members.get? "value" filter

def withRequested (filter modern : Members) : Option Operator → Members
  | none => modern
  | some operator =>
      match requestedOperand operator filter with
      | none => modern
      | some operand =>
          if Members.has operator.word modern then modern else modern ++ [(operator.word, operand)]

def modern (filter : Members) (path : String) : Outcome Members := do
  if usesDeprecated filter then
    Outcome.raise .deprecatedLeafFilter
    let operator ← requestedOperator path filter
    return withRequested filter (renamed (Members.has ne.word filter) filter) operator
  else return filter

def insertFlag (flag : Char) : List Char → List Char
  | [] => [flag]
  | held :: rest =>
      if flag < held then flag :: held :: rest
      else if flag = held then held :: rest
      else held :: insertFlag flag rest

def canonicalFlags (flags : String) : String := String.ofList (flags.toList.foldr insertFlag [])

def regularExpression (path : String) (pattern : Json) (negated : Members) : Except Error Json := do
  let mixed := negated.any (fun entry =>
    !entry.2.isNull && entry.1 != regex.word && entry.1 != options.word)
  if mixed then throw (.mixedNegation path)
  let .str text := pattern | throw (.invalidArgument path .patternNotString)
  let flags ← match (Members.get? options.word negated).bind Json.nonNull? with
    | none => pure ""
    | some (.str flags) => pure (canonicalFlags flags)
    | some _ => throw (.invalidArgument path .flagsNotString)
  return .obj [("$regularExpression", .obj [("pattern", .str text), ("options", .str flags)])]

def flagsOf (filter : Members) : Option Json :=
  (Members.get? options.word filter).bind Json.nonNull?

mutual
def negationEntries (path : String) : Json → Except Error Members
  | .null => .ok [(not.native, .null)]
  | .obj negated =>
      match (Members.get? regex.word negated).bind Json.nonNull? with
      | some pattern => do return [(not.native, ← regularExpression path pattern negated)]
      | none => do
          let entries ← operatorEntries path (flagsOf negated) negated
          return if entries.isEmpty then [] else [(not.native, .obj (Members.ofEntries entries))]
  | _ => .error (.invalidArgument path .negationNotObject)
termination_by structural operand => operand
def operatorEntries (path : String) (flags : Option Json) : Members → Except Error Members
  | [] => .ok []
  | (key, operand) :: rest => do
      let first ← match Operator.ofWord? key with
        | none => .error (.invalidArgument path (.unknownOperator key))
        | some .options => .ok []
        | some .regex =>
            .ok ((regex.native, operand) :: (flags.map (fun value => (options.native, value))).toList)
        | some .not => negationEntries path operand
        | some operator => .ok [(operator.native, operand)]
      let others ← operatorEntries path flags rest
      return first ++ others
termination_by structural filter => filter
end

def modernDocument (filter : Members) (path : String) : Except Error Members := do
  return Members.ofEntries (← operatorEntries path (flagsOf filter) filter)

def document (filter : Members) (path : String) : Outcome Members := do
  let filter ← modern filter path
  modernDocument filter path

end DocGraph.LeafFilter
