import DocGraph.InputType.Reference
import DocGraph.Json.Basic
import DocGraph.Keyed

set_option autoImplicit false

namespace DocGraph

inductive Deprecation where
  | active
  | deprecated (reason : Option String)
deriving DecidableEq, Repr

def Deprecation.isDeprecated : Deprecation → Bool
  | .active => false
  | .deprecated _ => true

structure InputValue where
  name : String
  type : TypeRef
  description : Option String := none
  deprecation : Deprecation := .active
deriving DecidableEq, Repr

structure InputObject where
  name : String
  description : Option String := none
  fields : List InputValue
deriving DecidableEq, Repr

namespace InputObject

def make (name : String) (description : Option String) (fields : List InputValue) : InputObject where
  name := name
  description := description
  fields := Keyed.collect InputValue.name fields

def field? (object : InputObject) (name : String) : Option InputValue :=
  Keyed.find? InputValue.name name object.fields

end InputObject

structure EnumValue where
  name : String
  description : Option String := none
  deprecation : Deprecation := .active
  /-- What the value stands for, when that is not its name. -/
  value : Option Json := none

structure InputEnum where
  name : String
  description : Option String := none
  values : List EnumValue

def InputEnum.make (name : String) (description : Option String) (values : List EnumValue) :
    InputEnum where
  name := name
  description := description
  values := Keyed.collect EnumValue.name values

inductive InputType where
  | object (type : InputObject)
  | enum (type : InputEnum)

namespace InputType

def name : InputType → String
  | .object type => type.name
  | .enum type => type.name

def object? : InputType → Option InputObject
  | .object type => some type
  | .enum _ => none

def isEnum : InputType → Bool
  | .object _ => false
  | .enum _ => true

end InputType

end DocGraph
