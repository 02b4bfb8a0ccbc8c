import TaggedParcel.CommandLine.FileTree
import TaggedParcel.Descriptor.Export
import TaggedParcel.Main
import TaggedParcel.Object.Decode
import TaggedParcel.Object.Encode
import TaggedParcel.Sample.Types
import TaggedParcel.Proofs.Buffer.Locality
import TaggedParcel.Proofs.Value.Locality
import TaggedParcel.Proofs.Frame.Outline
import TaggedParcel.Proofs.Frame.Scan
import TaggedParcel.Proofs.Object.Assembly
import TaggedParcel.Proofs.Object.Member
import TaggedParcel.Proofs.Object.Locality
import TaggedParcel.Proofs.Object.Fold
import TaggedParcel.Proofs.Object.Independence
import TaggedParcel.Proofs.Object.Agreement
import TaggedParcel.Proofs.Buffer.Roundtrip
import TaggedParcel.Proofs.Value.Roundtrip
import TaggedParcel.Proofs.Object.Pairing
import TaggedParcel.Proofs.Schema.Compile
import TaggedParcel.Proofs.Schema.Payload
import TaggedParcel.Proofs.Frame.Roundtrip
import TaggedParcel.Proofs.Object.FieldRoundtrip
import TaggedParcel.Proofs.Object.Roundtrip
import TaggedParcel.Proofs.Object.Failure
import TaggedParcel.Proofs.Buffer.Emission
import TaggedParcel.Proofs.Value.Emission
import TaggedParcel.Proofs.Buffer.Guard
import TaggedParcel.Proofs.Value.Encoding
import TaggedParcel.Proofs.Value.DepthLaw
import TaggedParcel.Proofs.Schema.Order
import TaggedParcel.Proofs.Object.Emission
import TaggedParcel.Proofs.Object.FieldShape
import TaggedParcel.Proofs.Object.FrameShape
import TaggedParcel.Proofs.Frame.Tiling
import TaggedParcel.Proofs.Buffer.Twin
import TaggedParcel.Proofs.Frame.Twin
import TaggedParcel.Proofs.Object.Extent
import TaggedParcel.Proofs.Frame.Sequence
import TaggedParcel.Proofs.Object.Absence
import TaggedParcel.Proofs.Object.Clean
import TaggedParcel.Proofs.Object.Nesting
import TaggedParcel.Proofs.Schema.Keys
import TaggedParcel.Proofs.Object.Guard
import TaggedParcel.Proofs.Object.FieldGuard
import TaggedParcel.Proofs.Object.DepthGuard
import TaggedParcel.Proofs.Frame.Tree
import TaggedParcel.Proofs.Buffer.Yield
import TaggedParcel.Proofs.Value.Bounds
import TaggedParcel.Proofs.Value.Limits
import TaggedParcel.Proofs.Schema.Kinds
import TaggedParcel.Proofs.Object.Limits
import TaggedParcel.Proofs.Value.Faults
import TaggedParcel.Proofs.Object.Faults
import TaggedParcel.Proofs.Frame.Limits
import TaggedParcel.Proofs.Frame.Depth
import TaggedParcel.Proofs.Value.BundleLength
import TaggedParcel.Proofs.Schema.Gates
import TaggedParcel.Proofs.Object.Gates
import TaggedParcel.Proofs.Object.Crossings
import TaggedParcel.Proofs.Object.ReportSize
import TaggedParcel.Proofs.Object.NullCollections
import TaggedParcel.Proofs.Buffer.Items
import TaggedParcel.Proofs.Frame.Confinement
import TaggedParcel.Proofs.Text.Utf16
import TaggedParcel.Proofs.Buffer.Text
import TaggedParcel.Proofs.Buffer.Patching
import TaggedParcel.Proofs.Frame.Backpatching
import TaggedParcel.Proofs.Inspect.Report
import TaggedParcel.Proofs.Descriptor.Build
import TaggedParcel.Proofs.Shape.Grammar
import TaggedParcel.Proofs.Descriptor.Unambiguous
import TaggedParcel.Proofs.Schema.Registrations
import TaggedParcel.Proofs.Object.Exchange
