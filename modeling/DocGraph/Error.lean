import DocGraph.Schema.Type

set_option autoImplicit false

namespace DocGraph

inductive Fault where
  | filterNotObject
  | notObject
  | notFilterList
  | unknownOperator (key : String)
  | negationNotObject
  | patternNotString
  | flagsNotString
  | unknownOpr (text : String)
  | oprNotString
  | sortNotObject
  | directionNumber
  | unknownDirection (text : String)
  | sortValue
  | incrementNotNumber
  | overwriteNotBoolean
  | malformedPage
deriving DecidableEq, Repr

def Fault.reason : Fault → String
  | .filterNotObject => "the filter must be an object"
  | .notObject => "expected an object"
  | .notFilterList => "expected a list of filters"
  | .unknownOperator key => s!"unknown filter operator {key}"
  | .negationNotObject => "NOT must be an object"
  | .patternNotString => "REGEX must be a string"
  | .flagsNotString => "OPTIONS must be a string"
  | .unknownOpr text => s!"unknown opr value {text}"
  | .oprNotString => "opr must be a string"
  | .sortNotObject => "the sort must be an object"
  | .directionNumber => "sort direction must be 1 or -1"
  | .unknownDirection text => s!"unknown sort direction {text}"
  | .sortValue => "unexpected sort value"
  | .incrementNotNumber => "increments must be numbers"
  | .overwriteNotBoolean => "_OVERWRITE must be a boolean"
  | .malformedPage => "expected integers limit and skip"

inductive Violation where
  | missing (path : String)
  | null (path : String)
  | nullElement (path : String)
deriving DecidableEq, Repr

def Violation.message : Violation → String
  | .missing path => s!"Missing non-nullable field \"{path}\""
  | .null path => s!"Non-nullable field \"{path}\" is set to null"
  | .nullElement path => s!"Non-nullable element of array \"{path}\" is set to null"

def Violation.path : Violation → String
  | .missing path | .null path | .nullElement path => path

inductive DeclaredKind where
  | composite (kind : CompositeKind)
  | someComposite
  | enum
  | scalar
deriving DecidableEq, Repr

def DeclaredKind.text : DeclaredKind → String
  | .composite .object => "an object"
  | .composite .interface => "an interface"
  | .someComposite => "a composite"
  | .enum => "an enum"
  | .scalar => "a scalar"

inductive Reference where
  | named (name : String)
  | composite (id : CompositeIndex)
  | enum (id : EnumIndex)
deriving DecidableEq, Repr

def Reference.text : Reference → String
  | .named name => name
  | .composite id => s!"#{id.index}"
  | .enum id => s!"#{id.index}"

inductive DependenciesFault where
  | pathsMissing
  | pathsNotStrings
deriving DecidableEq, Repr

def DependenciesFault.reason : DependenciesFault → String
  | .pathsMissing => "the paths argument is required"
  | .pathsNotStrings => "paths must be a list of strings"

inductive SchemaError where
  | emptyType (type : String)
  | conflictingKind (name : String) (first second : DeclaredKind)
  | undeclaredType (id : CompositeIndex)
  | duplicateField (type field : String)
  | unknownReference (type field : String) (target : Reference)
  | invalidDependencies (type field : String) (fault : DependenciesFault)
deriving DecidableEq, Repr

def SchemaError.message : SchemaError → String
  | .emptyType type => s!"Type '{type}' is referenced but declares no fields"
  | .conflictingKind name first second =>
      s!"Type '{name}' cannot be declared both as {first.text} and as {second.text}"
  | .undeclaredType id => s!"Type {id.text} was not declared by this builder"
  | .duplicateField type field => s!"Field '{type}.{field}' is declared twice"
  | .unknownReference type field target =>
      s!"Field '{type}.{field}' references the unknown type '{target.text}'"
  | .invalidDependencies type field fault =>
      s!"Invalid @mongoDependencies on '{type}.{field}': {fault.reason}"

inductive Error where
  | unknownComposite (id : CompositeIndex)
  | unknownEnum (id : EnumIndex)
  | unknownField (type field : String)
  | invalidArgument (path : String) (fault : Fault)
  | mixedNegation (path : String)
  | incomplete (violations : List Violation)
  | build (cause : SchemaError)
  | unreadableSchema
deriving DecidableEq, Repr

def Error.message : Error → String
  | .unknownComposite id => s!"Unknown type '{id.text}'"
  | .unknownEnum id => s!"Unknown type '{id.text}'"
  | .unknownField type field => s!"Type '{type}' has no field named '{field}'"
  | .invalidArgument path fault =>
      let place := if path = "" then "<root>" else path
      s!"Invalid argument at '{place}': {fault.reason}"
  | .mixedNegation path =>
      s!"The NOT filter on \"{path}\" may contain either REGEX (with OPTIONS) or other operators, not both"
  | .incomplete violations => "\n".intercalate (violations.map Violation.message)
  | .build cause => cause.message
  | .unreadableSchema => "The schema text is not a GraphQL schema document"

end DocGraph
