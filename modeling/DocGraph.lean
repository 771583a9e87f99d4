import DocGraph.Derivation.Session
import DocGraph.InputType.Printer
import DocGraph.Json.Printer
import DocGraph.Json.Reader
import DocGraph.Operation.Update
import DocGraph.Proofs.Filter.Preservation
import DocGraph.Proofs.Filter.Agreement
import DocGraph.Proofs.Filter.DeprecatedMembers
import DocGraph.Proofs.Update.Cascade
import DocGraph.Proofs.Update.Completeness
import DocGraph.Schema.Builder
import DocGraph.Schema.OfText
import DocGraph.Schema.Printer
import DocGraph.Proofs.Projection.Cover
import DocGraph.Proofs.Projection.Paths
import DocGraph.Proofs.Selection.Occurrences
import DocGraph.Proofs.Projection.Dependencies
import DocGraph.Proofs.Schema.Declarations
import DocGraph.Proofs.Schema.Leaves
import DocGraph.Proofs.Derivation.Closed
import DocGraph.Proofs.Update.Joined
import DocGraph.Proofs.Update.Upserts
import DocGraph.Proofs.Schema.Builder
import DocGraph.Proofs.Derivation.Names
import DocGraph.Proofs.Derivation.Order
import DocGraph.Proofs.Derivation.Parameters
import DocGraph.Proofs.Derivation.Renumbering
import DocGraph.Proofs.Filter.Renumbering
import DocGraph.Proofs.Projection.Renumbering
import DocGraph.Proofs.Update.Renumbering
import DocGraph.Proofs.Schema.DefinitionOrder
import DocGraph.Proofs.Update.Conflicts
import DocGraph.Proofs.Update.Leaves
import DocGraph.Proofs.Update.Computed
import DocGraph.Proofs.FlatTypes
import DocGraph.Proofs.Selection.Inlining
import DocGraph.Proofs.Selection.Merging
import DocGraph.Proofs.Projection.Rearrangement
import DocGraph.Proofs.Projection.StoredObjects
import DocGraph.Proofs.Projection.RootFragments
import DocGraph.Proofs.Derivation.EmptyObjects
import DocGraph.Proofs.Derivation.Atomicity
import DocGraph.Proofs.Derivation.SetReach
import DocGraph.Proofs.Filter.Negation
import DocGraph.Proofs.InputType.Reasons
import DocGraph.Proofs.Schema.Extensions
import DocGraph.Proofs.Derivation.Export
import DocGraph.Proofs.Update.Elements
import DocGraph.Proofs.Derivation.Wrapping
import DocGraph.Proofs.NoticeCycles
