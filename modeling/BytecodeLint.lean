import BytecodeLint.Analysis
import BytecodeLint.Archive
import BytecodeLint.Archive.Deflate
import BytecodeLint.Archive.Directory
import BytecodeLint.Archive.Header
import BytecodeLint.Archive.Name
import BytecodeLint.Archive.Record
import BytecodeLint.Bytecode.Decode
import BytecodeLint.Bytecode.Format
import BytecodeLint.Bytes
import BytecodeLint.Checksum
import BytecodeLint.Class
import BytecodeLint.ClassFile
import BytecodeLint.ClassFile.Attribute
import BytecodeLint.ClassFile.Image
import BytecodeLint.ClassFile.Reader
import BytecodeLint.ClassFile.Text
import BytecodeLint.Constant
import BytecodeLint.ConstantPool
import BytecodeLint.Descriptor
import BytecodeLint.Detector
import BytecodeLint.Detector.Boxing
import BytecodeLint.Detector.Catalog
import BytecodeLint.Detector.DiscardedObject
import BytecodeLint.Detector.LiteralComparison
import BytecodeLint.Detector.MemoryBloat
import BytecodeLint.Detector.SelfAssignment
import BytecodeLint.Effect
import BytecodeLint.Execution
import BytecodeLint.FileTree
import BytecodeLint.Finding
import BytecodeLint.Hex
import BytecodeLint.Instruction
import BytecodeLint.Json
import BytecodeLint.Main
import BytecodeLint.Opcode
import BytecodeLint.Opcode.Set
import BytecodeLint.OperandStack
import BytecodeLint.OperandStack.Fault
import BytecodeLint.Options
import BytecodeLint.Pathname
import BytecodeLint.Proofs.Abandonment
import BytecodeLint.Proofs.Application
import BytecodeLint.Proofs.Arrival
import BytecodeLint.Proofs.Assembly
import BytecodeLint.Proofs.Attempts
import BytecodeLint.Proofs.Attribution
import BytecodeLint.Proofs.Collections
import BytecodeLint.Proofs.Coupling
import BytecodeLint.Proofs.Course
import BytecodeLint.Proofs.Dataflow
import BytecodeLint.Proofs.Depth
import BytecodeLint.Proofs.Discard
import BytecodeLint.Proofs.Footprint
import BytecodeLint.Proofs.Growth
import BytecodeLint.Proofs.Identity
import BytecodeLint.Proofs.Infallible
import BytecodeLint.Proofs.Isolation
import BytecodeLint.Proofs.Layout
import BytecodeLint.Proofs.Levels
import BytecodeLint.Proofs.Log
import BytecodeLint.Proofs.Meeting
import BytecodeLint.Proofs.MethodLocality
import BytecodeLint.Proofs.Objects
import BytecodeLint.Proofs.Origin
import BytecodeLint.Proofs.Pairing
import BytecodeLint.Proofs.Passes
import BytecodeLint.Proofs.Placement
import BytecodeLint.Proofs.RoundTrip
import BytecodeLint.Proofs.Safety
import BytecodeLint.Proofs.Soundness
import BytecodeLint.Proofs.Stack
import BytecodeLint.Proofs.Straight
import BytecodeLint.Proofs.Trail
import BytecodeLint.Proofs.Uniqueness
import BytecodeLint.Report
import BytecodeLint.Report.Findings
import BytecodeLint.Report.Sarif
import BytecodeLint.Run
import BytecodeLint.Scan
import BytecodeLint.Slot
import BytecodeLint.Text
import BytecodeLint.Utf8
import BytecodeLint.Walk
import BytecodeLint.Proofs.Conformance
import BytecodeLint.Proofs.Tiling
import BytecodeLint.Proofs.Fitting
import BytecodeLint.Proofs.Sequence
import BytecodeLint.Proofs.Statements
import BytecodeLint.Proofs.Exactness
import BytecodeLint.Proofs.Contents
import BytecodeLint.Proofs.Prescreen
import BytecodeLint.Proofs.Idiom
import BytecodeLint.Proofs.Recognition
import BytecodeLint.Proofs.Consumption
import BytecodeLint.Proofs.Headroom
import BytecodeLint.Proofs.Results
import BytecodeLint.Proofs.Members
import BytecodeLint.Proofs.Traversal
import BytecodeLint.Proofs.Sites
import BytecodeLint.Proofs.Conservation
import BytecodeLint.Proofs.Leniency
import BytecodeLint.Proofs.Containers
import BytecodeLint.Proofs.Lines
import BytecodeLint.Proofs.Signatures
import BytecodeLint.Proofs.JsonText
import BytecodeLint.Proofs.Readback
