import AblAnalysis.Classes.Imports
import AblAnalysis.Classes.Reader
import AblAnalysis.Preprocessor.Listing
import AblAnalysis.Preprocessor.Outline
import AblAnalysis.Resolver.Basic
import AblAnalysis.Text.Quoted
import AblAnalysis.Text.Utf8
import AblAnalysis.Tree.Attribute
import AblAnalysis.Tree.Kind
import AblAnalysis.Unit
import AblAnalysis.Artifact.Decode
import AblAnalysis.Storage.Disk
import AblAnalysis.Storage.Retry
import AblAnalysis.Project.Batch
import AblAnalysis.Project.ConfigReader
import AblAnalysis.Main
import AblAnalysis.Proofs.Artifact.Items
import AblAnalysis.Proofs.SortedMap
import AblAnalysis.Proofs.Artifact.Segments
import AblAnalysis.Proofs.Artifact.Texts
import AblAnalysis.Proofs.Tree.Forest
import AblAnalysis.Proofs.Artifact.Nodes
import AblAnalysis.Proofs.Artifact.Trees
import AblAnalysis.Proofs.Artifact.Footprint
import AblAnalysis.Proofs.Artifact.RoundTrip
import AblAnalysis.Proofs.Preprocessor.Events
import AblAnalysis.Proofs.Preprocessor.History
import AblAnalysis.Proofs.Preprocessor.Tables
import AblAnalysis.Proofs.Preprocessor.Resolution
import AblAnalysis.Proofs.Project.Snapshot
import AblAnalysis.Proofs.Project.Loading
import AblAnalysis.Proofs.Schema.Abbreviation
import AblAnalysis.Proofs.Schema.Building
import AblAnalysis.Proofs.Schema.Lookup
import AblAnalysis.Proofs.Preprocessor.Growth
import AblAnalysis.Proofs.Preprocessor.Linkage
import AblAnalysis.Proofs.Preprocessor.SourceOrder
import AblAnalysis.Proofs.Preprocessor.Nesting
import AblAnalysis.Proofs.Artifact.Reached
import AblAnalysis.Proofs.Project.Calls
import AblAnalysis.Proofs.Tree.WalkOrder
import AblAnalysis.Proofs.Tree.Arena
import AblAnalysis.Proofs.Tree.Additions
import AblAnalysis.Proofs.Artifact.Streams
import AblAnalysis.Proofs.Artifact.Interning
import AblAnalysis.Proofs.Artifact.Reading
import AblAnalysis.Proofs.Artifact.Readers
import AblAnalysis.Proofs.Artifact.Legible
import AblAnalysis.Proofs.Artifact.Canonical
import AblAnalysis.Proofs.Artifact.Extent
import AblAnalysis.Proofs.Classes.Ancestors
import AblAnalysis.Proofs.Resolver.Scopes
import AblAnalysis.Proofs.Resolver.Brackets
import AblAnalysis.Proofs.Resolver.Visibility
import AblAnalysis.Proofs.Artifact.Partial
import AblAnalysis.Proofs.Project.Reloading
import AblAnalysis.Proofs.Artifact.Marks
import AblAnalysis.Proofs.Storage.Paths
import AblAnalysis.Proofs.Storage.Walks
import AblAnalysis.Proofs.Storage.Retries
import AblAnalysis.Proofs.Project.Building
import AblAnalysis.Proofs.Resolver.Chains
import AblAnalysis.Proofs.Classes.Indexes
import AblAnalysis.Proofs.Classes.Ascents
import AblAnalysis.Proofs.Schema.Registration
import AblAnalysis.Proofs.Storage.Frames
import AblAnalysis.Proofs.Storage.Nesting
import AblAnalysis.Proofs.Storage.Sources
import AblAnalysis.Proofs.Project.Keeping
import AblAnalysis.Proofs.Project.Batches
import AblAnalysis.Proofs.Project.Reruns
import AblAnalysis.Proofs.Preprocessor.Removal
import AblAnalysis.Proofs.Text.Lowering
import AblAnalysis.Proofs.Resolver.FullNames
import AblAnalysis.Proofs.Resolver.Shadowing
import AblAnalysis.Proofs.Resolver.Inheritance
import AblAnalysis.Proofs.Preprocessor.Dependencies
import AblAnalysis.Proofs.Preprocessor.Origins
import AblAnalysis.Proofs.Preprocessor.Arguments
import AblAnalysis.Proofs.Preprocessor.EditableSections
import AblAnalysis.Proofs.Text.Layout
import AblAnalysis.Proofs.Preprocessor.Listings
import AblAnalysis.Proofs.Text.Parts
import AblAnalysis.Proofs.Preprocessor.Legibility
import AblAnalysis.Proofs.Schema.Fields
import AblAnalysis.Proofs.Schema.Entries
import AblAnalysis.Proofs.Schema.Grammar
import AblAnalysis.Proofs.Schema.Writing
import AblAnalysis.Proofs.Schema.Dictionaries
import AblAnalysis.Proofs.Schema.FieldOrders
import AblAnalysis.Proofs.Schema.Aliases
import AblAnalysis.Proofs.Classes.Importing
