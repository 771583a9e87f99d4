import DocGraph.Keyed
import DocGraph.Schema.Declaration
/-!
The builder that collects the declarations of a schema: composites and enums by their places, and a table that tells what
a name denotes. Its calls change these one after another, and a call that fails leaves what it changed until then.
-/

set_option autoImplicit false

namespace DocGraph

inductive NamedId where
  | composite (id : CompositeIndex)
  | enum (id : EnumIndex)
  | scalar
deriving DecidableEq, Repr

abbrev NameTable := List (String × NamedId)

namespace NameTable

def lookup? (names : NameTable) (name : String) : Option NamedId := (Keyed.find? Prod.fst name names).map Prod.snd

def insert (names : NameTable) (name : String) (id : NamedId) : NameTable := Keyed.put Prod.fst (name, id) names

def compositeNamed? (names : NameTable) (name : String) : Option CompositeIndex :=
  match names.lookup? name with
  | some (.composite id) => some id
  | _ => none

def scalars (names : NameTable) : List String :=
  (names.filter (fun entry => entry.2 == .scalar)).map Prod.fst

end NameTable

structure Builder where
  composites : List Composite := []
  enums : List Enumeration := []
  names : NameTable := []
deriving DecidableEq, Repr

structure TypeGraph where
  schema : Schema
  names : NameTable
deriving DecidableEq, Repr

namespace Builder

def compositeKind? (builder : Builder) (id : CompositeIndex) : Option CompositeKind :=
  builder.composites[id.index]?.map Composite.kind

def kindOf (builder : Builder) : NamedId → DeclaredKind
  | .composite id => (builder.compositeKind? id).elim .someComposite .composite
  | .enum _ => .enum
  | .scalar => .scalar

def schema (builder : Builder) : Schema where
  composites := builder.composites
  enums := builder.enums
  scalars := builder.names.scalars

abbrev Building := ExceptT SchemaError (StateM Builder)

namespace Building

def name (text : String) (id : NamedId) : Building Unit :=
  modify (fun builder => { builder with names := builder.names.insert text id })

def conflict {α : Type} (name : String) (held : NamedId) (second : DeclaredKind) : Building α := do
  throw (.conflictingKind name ((← get).kindOf held) second)

def composite (kind : CompositeKind) (text : String) : Building CompositeIndex := do
  match (← get).names.lookup? text with
  | some (.composite id) =>
      match (← get).compositeKind? id with
      | some held => if held = kind then return id else throw (.conflictingKind text (.composite held) (.composite kind))
      | none => return id
  | some held => conflict text held (.composite kind)
  | none =>
      let id : CompositeIndex := ⟨(← get).composites.length⟩
      modify (fun builder => { builder with composites := builder.composites ++ [{ name := text, kind := kind }] })
      name text (.composite id)
      return id

def enum (text : String) (values : List String) : Building EnumIndex := do
  match (← get).names.lookup? text with
  | some held => conflict text held .enum
  | none =>
      let id : EnumIndex := ⟨(← get).enums.length⟩
      modify (fun builder => { builder with enums := builder.enums ++ [{ name := text, values := values }] })
      name text (.enum id)
      return id

def scalar (text : String) : Building ScalarType := do
  match ScalarType.builtin? text with
  | some builtin => return builtin
  | none =>
      match (← get).names.lookup? text with
      | none => name text .scalar
      | some .scalar => pure ()
      | some held => conflict text held .scalar
      return .custom text

def describe (id : CompositeIndex) (text : String) : Building Unit :=
  modify (fun builder => { builder with
    composites := builder.composites.modify id.index (fun composite => { composite with description := some text }) })

def describeEnum (id : EnumIndex) (text : String) : Building Unit :=
  modify (fun builder => { builder with
    enums := builder.enums.modify id.index (fun definition => { definition with description := some text }) })

def field (owner : CompositeIndex) (field : Field) : Building Unit := do
  match (← get).composites[owner.index]? with
  | none => throw (.undeclaredType owner)
  | some composite =>
      match composite.field? field.name with
      | some _ => throw (.duplicateField composite.name field.name)
      | none =>
          modify (fun builder => { builder with
            composites := builder.composites.set owner.index { composite with fields := composite.fields ++ [field] } })

def call : Declaration → Building Declaration.Answer
  | .composite kind name => return .composite (← composite kind name)
  | .enum name values => return .enum (← enum name values)
  | .scalar name => return .scalar (← scalar name)
  | .describe id text => do
      describe id text
      return .done
  | .describeEnum id text => do
      describeEnum id text
      return .done
  | .field owner given => do
      field owner given
      return .done

end Building

def step (builder : Builder) (declaration : Declaration) : Builder × Except SchemaError Declaration.Answer :=
  let (answer, changed) := (Building.call declaration).run.run builder
  (changed, answer)

def run (builder : Builder) (declarations : List Declaration) : Builder :=
  declarations.foldl (fun builder declaration => (builder.step declaration).1) builder

def build (builder : Builder) : Except SchemaError TypeGraph := do
  builder.schema.check
  return { schema := builder.schema, names := builder.names }

end Builder

end DocGraph
