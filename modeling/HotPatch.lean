import HotPatch.Text.ByteOrder
import HotPatch.Text.Utf16
import HotPatch.Name
import HotPatch.Descriptor.Type
import HotPatch.Descriptor.Reader
import HotPatch.Access
import HotPatch.Identity
import HotPatch.Bytecode.Register
import HotPatch.Bytecode.RegisterSet
import HotPatch.Bytecode.Instruction
import HotPatch.Bytecode.Body
import HotPatch.Bytecode.Draft
import HotPatch.Bytecode.Receiver
import HotPatch.Program.Component
import HotPatch.Program.Tag
import HotPatch.Program.Member
import HotPatch.Program.Class
import HotPatch.Program.Graph
import HotPatch.Interceptor
import HotPatch.Boxing
import HotPatch.Fault
import HotPatch.Selection
import HotPatch.Widening
import HotPatch.Manifest
import HotPatch.Slots
import HotPatch.Numbering
import HotPatch.Intercept.Dispatch
import HotPatch.Intercept.Method
import HotPatch.Intercept.Delegation
import HotPatch.Intercept.Constructor
import HotPatch.Intercept.StaticInit
import HotPatch.Genesis.Overridable
import HotPatch.Genesis.Synthesis
import HotPatch.Genesis.Hierarchy
import HotPatch.Settings
import HotPatch.Report
import HotPatch.Instrument
import HotPatch.Proofs.Basics
import HotPatch.Proofs.Program.Hierarchy
import HotPatch.Proofs.Program.Outline
import HotPatch.Proofs.Program.Methods
import HotPatch.Proofs.Program.PackedMarks
import HotPatch.Proofs.Program.ComponentMarks
import HotPatch.Proofs.Program.Passes
import HotPatch.Proofs.Program.Sweeps
import HotPatch.Proofs.Descriptor.Rendering
import HotPatch.Proofs.Bytecode.ControlFlow
import HotPatch.Proofs.Bytecode.FrameSize
import HotPatch.Proofs.Bytecode.RegisterRuns
import HotPatch.Proofs.Bytecode.Encodable
import HotPatch.Proofs.Bytecode.GrownFrame
import HotPatch.Proofs.Bytecode.Machine
import HotPatch.Proofs.Bytecode.Constants
import HotPatch.Proofs.Bytecode.Embedding
import HotPatch.Proofs.Bytecode.Progress
import HotPatch.Proofs.Bytecode.Runtime
import HotPatch.Proofs.Bytecode.Interpreter
import HotPatch.Proofs.Bytecode.Platform
import HotPatch.Proofs.Receiver.Transfer
import HotPatch.Proofs.Receiver.Unowned
import HotPatch.Proofs.Receiver.Fixpoint
import HotPatch.Proofs.Receiver.Paths
import HotPatch.Proofs.Receiver.Visits
import HotPatch.Proofs.Intercept.Shape
import HotPatch.Proofs.Intercept.EmptySlot
import HotPatch.Proofs.Intercept.InitBlock
import HotPatch.Proofs.Intercept.NumberedCalls
import HotPatch.Proofs.Intercept.InitOrder
import HotPatch.Proofs.Intercept.WellFormed
import HotPatch.Proofs.Intercept.Packing
import HotPatch.Proofs.Intercept.FilledSlot
import HotPatch.Proofs.Intercept.ClosedBody
import HotPatch.Proofs.Intercept.MethodProtocol
import HotPatch.Proofs.Intercept.ConstructorProtocol
import HotPatch.Proofs.Intercept.StaticInitProtocol
import HotPatch.Proofs.Genesis.Steps
import HotPatch.Proofs.Genesis.Traversal
import HotPatch.Proofs.Genesis.Growth
import HotPatch.Proofs.Genesis.Survey
import HotPatch.Proofs.Genesis.Refinement
import HotPatch.Proofs.Genesis.Synthesis
import HotPatch.Proofs.Genesis.Retargeting
import HotPatch.Proofs.Genesis.Boundaries
import HotPatch.Proofs.Genesis.Moves
import HotPatch.Proofs.Genesis.Dressing
import HotPatch.Proofs.Genesis.BuddyChain
import HotPatch.Proofs.Genesis.Constructors
import HotPatch.Proofs.Genesis.ByNumber
import HotPatch.Proofs.Genesis.Additions
import HotPatch.Proofs.Genesis.Shapes
import HotPatch.Proofs.Genesis.SecondInsertion
import HotPatch.Proofs.Instrument.OneClass
import HotPatch.Proofs.Instrument.ClassByClass
import HotPatch.Proofs.Instrument.Frame
import HotPatch.Proofs.Instrument.Stages
import HotPatch.Proofs.Instrument.Reporting
import HotPatch.Proofs.Instrument.VendorPush
import HotPatch.Proofs.Instrument.Spent
import HotPatch.Proofs.Instrument.WiderAccess
import HotPatch.Proofs.Instrument.SecondRun
import HotPatch.Proofs.Descriptor.Characters
import HotPatch.Proofs.Descriptor.Bytes
import HotPatch.Proofs.Descriptor.RoundTrip
import HotPatch.Proofs.Descriptor.ErrorPlaces
import HotPatch.Proofs.Program.Operations
import HotPatch.Proofs.Program.Consistency
import HotPatch.Proofs.Program.Onward
import HotPatch.Proofs.Genesis.Changes
import HotPatch.Proofs.Intercept.SlotReferences
import HotPatch.Proofs.Genesis.Lasting
import HotPatch.Proofs.Instrument.Requests
import HotPatch.Proofs.Instrument.ClosedClasses
import HotPatch.Proofs.Receiver.Outcome
import HotPatch.Proofs.Instrument.MethodNumbers
import HotPatch.Proofs.Genesis.Stubs
import HotPatch.Proofs.Intercept.PackedArguments
import HotPatch.Proofs.Instrument.SlotFields
import HotPatch.Proofs.Instrument.Overriding
import HotPatch.Proofs.Intercept.ParameterShapes
import HotPatch.Proofs.Program.ManifestClosure
import HotPatch.Proofs.Text.PolynomialHash
