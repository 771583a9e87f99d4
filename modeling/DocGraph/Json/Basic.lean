import DocGraph.Number.Basic

set_option autoImplicit false

namespace DocGraph

inductive Json where
  | null
  | bool (value : Bool)
  | num (value : Number)
  | str (value : String)
  | arr (elements : List Json)
  | obj (members : List (String × Json))
deriving Inhabited

abbrev Members := List (String × Json)

namespace Json

def int (value : Int) : Json := .num (.int value)

def isNull : Json → Bool
  | .null => true
  | _ => false

def members? : Json → Option Members
  | .obj members => some members
  | _ => none

def nonNull? : Json → Option Json
  | .null => none
  | value => some value

mutual
def depth : Json → Nat
  | .arr elements => elementsDepth elements + 1
  | .obj members => membersDepth members + 1
  | _ => 0
termination_by structural value => value
def elementsDepth : List Json → Nat
  | [] => 0
  | element :: rest => max (depth element) (elementsDepth rest)
termination_by structural elements => elements
def membersDepth : Members → Nat
  | [] => 0
  | (_, value) :: rest => max (depth value) (membersDepth rest)
termination_by structural members => members
end

end Json

namespace Members

def keys (members : Members) : List String := members.map Prod.fst

def get? (key : String) : Members → Option Json
  | [] => none
  | (name, value) :: rest => if name = key then some value else get? key rest

def has (key : String) (members : Members) : Bool := (get? key members).isSome

def put (key : String) (value : Json) : Members → Members
  | [] => [(key, value)]
  | (name, held) :: rest =>
      if name = key then (name, value) :: rest else (name, held) :: put key value rest

def putAll (members entries : Members) : Members :=
  entries.foldl (fun document entry => put entry.1 entry.2 document) members

-- The object that a sequence of entries builds: of entries with one key the last value counts, at
-- the place of the first.
def ofEntries (entries : Members) : Members := putAll [] entries

theorem get?_put (key name : String) (value : Json) (members : Members) :
    get? name (put key value members) = if key = name then some value else get? name members := by
  induction members with
  | nil => rfl
  | cons entry rest ih =>
      rcases entry with ⟨held, old⟩
      by_cases same : held = key
      · subst same
        by_cases hit : held = name <;> simp [put, get?, hit]
      · by_cases hit : held = name
        · subst hit
          simp [put, get?, same, Ne.symm same]
        · simp [put, get?, same, hit, ih]

theorem keys_put (key : String) (value : Json) (members : Members) :
    keys (put key value members) =
      if key ∈ keys members then keys members else keys members ++ [key] := by
  unfold keys
  induction members with
  | nil => rfl
  | cons entry rest ih =>
      rcases entry with ⟨held, old⟩
      by_cases same : held = key
      · subst same
        simp [put]
      · have other : ¬ key = held := fun h => same h.symm
        by_cases found : key ∈ rest.map Prod.fst
        · rw [if_pos found] at ih
          simp only [put, if_neg same, List.map_cons, ih, List.mem_cons, found, or_true, if_true]
        · rw [if_neg found] at ih
          simp only [put, if_neg same, List.map_cons, ih, List.mem_cons, found, other, or_self, if_false,
            List.cons_append]

end Members

end DocGraph
