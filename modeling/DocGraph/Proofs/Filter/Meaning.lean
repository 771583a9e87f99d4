import DocGraph.Filter.Document
import DocGraph.Proofs.DotPath
import DocGraph.Proofs.Json.Descent
/-!
What filters mean, before and after they are compiled.

`documentHolds` evaluates a compiled document by its path conditions, and `rootHolds` evaluates a filter
along its own tree. Both leave to `judge` whether a value satisfies the native operators of a leaf.
-/

set_option autoImplicit false

namespace DocGraph

namespace Combinator

def joins : Combinator → List Bool → Bool
  | .or, answers => answers.any id
  | .and, answers => answers.all id
  | .nor, answers => !answers.any id

def ofNative? (text : String) : Option Combinator := all.find? (fun combinator => combinator.native == text)

end Combinator

namespace Filter

def presenceHolds (operand : Json) (held : Option Json) : Bool :=
  match operand with
  | .bool required => held.isSome == required
  | _ => false

section Documents

variable (judge : Members → Option Json → Bool)

mutual
-- The conditions of a document are all required. A key is a combinator, `$exists` for the value the
-- document is about, or the path of the value that a condition is about.
def documentHolds : Members → Option Json → Bool
  | [], _ => true
  | (key, condition) :: rest, held => entryHolds key condition held && documentHolds rest held
termination_by structural document => document
def entryHolds (key : String) : Json → Option Json → Bool
  | .arr documents, held =>
      (Combinator.ofNative? key).any (fun combinator => combinator.joins (documentsHold documents held))
  | .obj condition, held => conditionHolds condition (Json.descend (DotPath.segments key) held)
  | operand, held => key == "$exists" && presenceHolds operand held
termination_by structural condition => condition
def documentsHold : List Json → Option Json → List Bool
  | [], _ => []
  | .obj document :: rest, held => documentHolds document held :: documentsHold rest held
  | _ :: rest, held => false :: documentsHold rest held
termination_by structural documents => documents
def conditionHolds : Members → Option Json → Bool
  | [(operator, operand)], held =>
      if operator = "$exists" then presenceHolds operand held
      else if operator = "$elemMatch" then elementHolds operand held
      else judge [(operator, operand)] held
  | operators, held => judge operators held
termination_by structural condition => condition
def elementHolds : Json → Option Json → Bool
  | .obj document, some (.arr elements) =>
      elements.any (fun element => documentHolds document (some element))
  | _, _ => false
termination_by structural operand => operand
end

end Documents

-- The native operators of a leaf filter. A filter that does not compile has none.
def leafOperators (filter : Members) : Members :=
  match (LeafFilter.document filter "").result with
  | .ok operators => operators
  | .error _ => []

def oprHolds (operand : Json) (held : Option Json) : Bool :=
  match operand with
  | .str text =>
      match PresenceOperator.ofText? text with
      | some operator => held.isSome == (operator == .present)
      | none => true
  | _ => true

section Filters

variable (schema : Schema)

mutual
def fieldAsks (field : Field) : Json → Bool
  | .obj filter =>
      match field.type.composite? with
      | none => !(leafOperators filter).isEmpty
      | some id =>
          match schema.composite id with
          | .ok composite => nestedAsks composite filter
          | .error _ => false
  | _ => false
termination_by structural filter => filter
def nestedAsks (composite : Composite) : Members → Bool
  | [] => false
  | (key, filter) :: rest =>
      (if key = "opr" then !filter.isNull
        else (composite.field? key).any (fun field => fieldAsks field filter))
      || nestedAsks composite rest
termination_by structural members => members
end

variable (judge : Members → Option Json → Bool)

mutual
def fieldHolds (field : Field) : Json → Option Json → Bool
  | .obj filter, held =>
      match field.type.composite? with
      | none => (leafOperators filter).isEmpty || judge (leafOperators filter) held
      | some id =>
          match schema.composite id with
          | .error _ => true
          | .ok composite =>
              if field.type.isList then
                !nestedAsks schema composite filter ||
                  match held with
                  | some (.arr elements) =>
                      elements.any (fun element => nestedHolds composite filter (some element))
                  | _ => false
              else nestedHolds composite filter held
  | _, _ => true
termination_by structural filter => filter
def nestedHolds (composite : Composite) : Members → Option Json → Bool
  | [], _ => true
  | (key, filter) :: rest, held =>
      (if key = "opr" then oprHolds filter held
        else (composite.field? key).all (fun field =>
          fieldHolds field filter (held.bind (Json.member? key))))
      && nestedHolds composite rest held
termination_by structural members => members
end

mutual
-- Whether a document satisfies a filter object of its type. Its members are all required, and a
-- combinator without filters requires nothing.
def rootHolds (composite : Composite) : Members → Option Json → Bool
  | [], _ => true
  | (key, filter) :: rest, held =>
      (match Combinator.ofWord? key with
        | some combinator => combinatorHolds composite combinator filter held
        | none => (composite.field? key).all (fun field =>
            fieldHolds schema judge field filter (held.bind (Json.member? key))))
      && rootHolds composite rest held
termination_by structural members => members
def combinatorHolds (composite : Composite) (combinator : Combinator) : Json → Option Json → Bool
  | .arr filters, held => filters.isEmpty || combinator.joins (filtersHold composite filters held)
  | _, _ => true
termination_by structural filters => filters
def filtersHold (composite : Composite) : List Json → Option Json → List Bool
  | [], _ => []
  | .obj filter :: rest, held => rootHolds composite filter held :: filtersHold composite rest held
  | _ :: rest, held => true :: filtersHold composite rest held
termination_by structural filters => filters
end

def holds (type : CompositeIndex) (filter : Option Json) (document : Json) : Bool :=
  match filter, schema.composite type with
  | some (.obj filter), .ok composite => rootHolds schema judge composite filter (some document)
  | _, _ => true

end Filters

end Filter

end DocGraph
