
set_option autoImplicit false

namespace DocGraph

inductive Operator where
  | eq
  | gt
  | gte
  | isIn
  | lt
  | lte
  | ne
  | nin
  | regex
  | options
  | not
deriving DecidableEq, Repr

namespace Operator

def all : List Operator := [eq, gt, gte, isIn, lt, lte, ne, nin, regex, options, not]

def word : Operator → String
  | eq => "EQ"
  | gt => "GT"
  | gte => "GTE"
  | isIn => "IN"
  | lt => "LT"
  | lte => "LTE"
  | ne => "NE"
  | nin => "NIN"
  | regex => "REGEX"
  | options => "OPTIONS"
  | not => "NOT"

def native : Operator → String
  | eq => "$eq"
  | gt => "$gt"
  | gte => "$gte"
  | isIn => "$in"
  | lt => "$lt"
  | lte => "$lte"
  | ne => "$ne"
  | nin => "$nin"
  | regex => "$regex"
  | options => "$options"
  | not => "$not"

def ofWord? (text : String) : Option Operator := all.find? (fun operator => operator.word == text)

def comparesWithList : Operator → Bool
  | isIn | nin => true
  | _ => false

def forStringsOnly : Operator → Bool
  | regex | options => true
  | _ => false

theorem ofWord?_word (operator : Operator) : ofWord? operator.word = some operator := by
  cases operator <;> decide

end Operator

inductive DeprecatedOperator where
  | eql
  | gt
  | gte
  | isIn
  | lt
  | lte
  | ne
  | nin
deriving DecidableEq, Repr

namespace DeprecatedOperator

def all : List DeprecatedOperator := [eql, gt, gte, isIn, lt, lte, ne, nin]

def word : DeprecatedOperator → String
  | eql => "EQL"
  | gt => "GT"
  | gte => "GTE"
  | isIn => "IN"
  | lt => "LT"
  | lte => "LTE"
  | ne => "NE"
  | nin => "NIN"

def leaf : DeprecatedOperator → Operator
  | eql => .eq
  | gt => .gt
  | gte => .gte
  | isIn => .isIn
  | lt => .lt
  | lte => .lte
  | ne => .ne
  | nin => .nin

def ofText? (text : String) : Option DeprecatedOperator :=
  all.find? (fun operator => operator.word == text || operator.leaf.native == text)

end DeprecatedOperator

inductive PresenceOperator where
  | present
  | absent
deriving DecidableEq, Repr

namespace PresenceOperator

def all : List PresenceOperator := [present, absent]

def word : PresenceOperator → String
  | present => "EXISTS"
  | absent => "NOT_EXISTS"

def native : PresenceOperator → String
  | present => "exists"
  | absent => "not_exists"

def ofText? (text : String) : Option PresenceOperator :=
  all.find? (fun operator => operator.word == text || operator.native == text)

end PresenceOperator

inductive Combinator where
  | or
  | and
  | nor
deriving DecidableEq, Repr

namespace Combinator

def all : List Combinator := [or, and, nor]

def word : Combinator → String
  | or => "OR"
  | and => "AND"
  | nor => "NOR"

def native : Combinator → String
  | or => "$or"
  | and => "$and"
  | nor => "$nor"

def ofWord? (text : String) : Option Combinator := all.find? (fun combinator => combinator.word == text)

end Combinator

inductive Direction where
  | ascending
  | descending
deriving DecidableEq, Repr

namespace Direction

def all : List Direction := [ascending, descending]

def word : Direction → String
  | ascending => "ASC"
  | descending => "DESC"

def value : Direction → Int
  | ascending => 1
  | descending => -1

def ofWord? (text : String) : Option Direction :=
  all.find? (fun direction => direction.word == text)

def ofValue? (value : Int) : Option Direction :=
  all.find? (fun direction => direction.value == value)

end Direction

end DocGraph
