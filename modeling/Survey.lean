import Survey.Model.Export
import Survey.Scan
import Survey.Proofs.Pattern.Groups
import Survey.Proofs.Pattern.Finds
import Survey.Proofs.Registry
import Survey.Proofs.Model.WellKeyed
import Survey.Proofs.Signature.Resolution
import Survey.Proofs.Declaration.Canonical
import Survey.Proofs.Scan.Merge
import Survey.Proofs.Scan.Isolation
import Survey.Proofs.FileTree.Walk
import Survey.Proofs.FileTree.Removal
import Survey.Proofs.FileTree.Trail
import Survey.Proofs.Declaration.Heads
import Survey.Proofs.Declaration.Members
import Survey.Proofs.Declaration.Annotations
import Survey.Proofs.Declaration.Printed
import Survey.Proofs.Text.Lines
import Survey.Proofs.Declaration.Units
import Survey.Proofs.Declaration.RoundTrip
import Survey.Proofs.Declaration.Imports
import Survey.Proofs.Text.Trim
import Survey.Proofs.Declaration.WellFormed
import Survey.Proofs.Routing.WellFormed
import Survey.Proofs.Model.Changes
import Survey.Proofs.Model.WellFormed
import Survey.Proofs.Sorting
import Survey.Proofs.Text.ByteOrder
import Survey.Proofs.Relation.Agreement
import Survey.Proofs.RemoteInterface.Lines
import Survey.Proofs.RemoteInterface.Documents
import Survey.Proofs.RemoteInterface.Shapes
import Survey.Proofs.RemoteInterface.RoundTrip
import Survey.Proofs.Text.Spacing
import Survey.Proofs.Pattern.Seam
import Survey.Proofs.RemoteInterface.LineSpacing
import Survey.Proofs.RemoteInterface.Comments
import Survey.Proofs.Model.Statistics
import Survey.Proofs.Scan.Discovery
import Survey.Proofs.RemoteInterface.NestedModules
import Survey.Proofs.Declaration.GenericTypes
import Survey.Proofs.Declaration.GenericUnits
import Survey.Proofs.Relation.Endpoints
import Survey.Proofs.Text.Places
import Survey.Proofs.Declaration.Blocks
import Survey.Proofs.Declaration.BlockIndex
import Survey.Proofs.Declaration.Checked
import Survey.Proofs.Gauge
import Survey.Proofs.Declaration.AnnotatedFields
import Survey.Proofs.Declaration.ParameterLists
import Survey.Proofs.Declaration.SourceLines
import Survey.Proofs.RemoteInterface.Truncation
import Survey.Proofs.Declaration.WordPlaces
import Survey.Proofs.Declaration.CallPlaces
import Survey.Proofs.Relation.CallTargets
import Survey.Proofs.Declaration.TypeSlots
import Survey.Proofs.Routing.Forwards
import Survey.Proofs.Routing.Outline
import Survey.Proofs.RemoteInterface.Malformed
import Survey.Proofs.RemoteInterface.MemberTypes
import Survey.Proofs.Text.Splitting
import Survey.Proofs.Text.Rejoining
import Survey.Proofs.Declaration.FlatLists
import Survey.Proofs.RemoteInterface.NormalForm
import Survey.Proofs.Text.LineIndex
import Survey.Proofs.Declaration.AnnotationBlocks
