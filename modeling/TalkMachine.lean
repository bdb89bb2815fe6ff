import TalkMachine.Bytecode.Decode
import TalkMachine.Bytecode.Instruction
import TalkMachine.Bytecode.Listing
import TalkMachine.Bytecode.Opcode
import TalkMachine.Bytecode.SpecialSelector
import TalkMachine.Code
import TalkMachine.Code.Encode
import TalkMachine.Code.Error
import TalkMachine.Code.Layout
import TalkMachine.Code.Node
import TalkMachine.Code.Width
import TalkMachine.CommandLine
import TalkMachine.CommandLine.Options
import TalkMachine.Decimal.Notation
import TalkMachine.Decimal.Shortest
import TalkMachine.Demo
import TalkMachine.Dictionary
import TalkMachine.Heap
import TalkMachine.Heap.Store
import TalkMachine.Interpreter
import TalkMachine.Interpreter.Execution
import TalkMachine.Interpreter.Step
import TalkMachine.Machine
import TalkMachine.Machine.Bootstrap
import TalkMachine.Machine.Class
import TalkMachine.Machine.ClassIndex
import TalkMachine.Machine.Convert
import TalkMachine.Machine.Error
import TalkMachine.Machine.Lookup
import TalkMachine.Machine.Print
import TalkMachine.Main
import TalkMachine.Method
import TalkMachine.Native.Float
import TalkMachine.Native.Integer
import TalkMachine.Native.Kernel
import TalkMachine.Native.Table
import TalkMachine.Object.Format
import TalkMachine.Object.Header
import TalkMachine.Proofs.Bytecode.Disassembly
import TalkMachine.Proofs.Code.Construction
import TalkMachine.Proofs.Code.EmptyJump
import TalkMachine.Proofs.Code.FixedPoint
import TalkMachine.Proofs.Code.Generation
import TalkMachine.Proofs.Code.Listing
import TalkMachine.Proofs.Code.MethodObject
import TalkMachine.Proofs.Code.Nodes
import TalkMachine.Proofs.Code.Placement
import TalkMachine.Proofs.Code.Pushes
import TalkMachine.Proofs.Code.Reach
import TalkMachine.Proofs.Code.RoundTrip
import TalkMachine.Proofs.Code.Settling
import TalkMachine.Proofs.Code.Shortest
import TalkMachine.Proofs.Code.Tightness
import TalkMachine.Proofs.Code.Width
import TalkMachine.Proofs.Demo.Defining
import TalkMachine.Proofs.Demo.Factorial
import TalkMachine.Proofs.Demo.Outcomes
import TalkMachine.Proofs.Dictionary.Atomicity
import TalkMachine.Proofs.Dictionary.Changing
import TalkMachine.Proofs.Dictionary.NilKeys
import TalkMachine.Proofs.Dictionary.Outcomes
import TalkMachine.Proofs.Dictionary.Reading
import TalkMachine.Proofs.Dictionary.Refinement
import TalkMachine.Proofs.Dictionary.Room
import TalkMachine.Proofs.Dictionary.Table
import TalkMachine.Proofs.Dictionary.Tending
import TalkMachine.Proofs.Heap.Allocation
import TalkMachine.Proofs.Heap.Bytes
import TalkMachine.Proofs.Heap.Growth
import TalkMachine.Proofs.Heap.Holds
import TalkMachine.Proofs.Heap.Operations
import TalkMachine.Proofs.Heap.Refinement
import TalkMachine.Proofs.Heap.Refusals
import TalkMachine.Proofs.Heap.Represents
import TalkMachine.Proofs.Heap.Room
import TalkMachine.Proofs.Heap.Slots
import TalkMachine.Proofs.Interpreter.Activation
import TalkMachine.Proofs.Interpreter.Arising
import TalkMachine.Proofs.Interpreter.CallReturn
import TalkMachine.Proofs.Interpreter.Callers
import TalkMachine.Proofs.Interpreter.Discipline
import TalkMachine.Proofs.Interpreter.Dispatch
import TalkMachine.Proofs.Interpreter.Equality
import TalkMachine.Proofs.Interpreter.Execution
import TalkMachine.Proofs.Interpreter.Failure
import TalkMachine.Proofs.Interpreter.Fetching
import TalkMachine.Proofs.Interpreter.Frames
import TalkMachine.Proofs.Interpreter.Inlining
import TalkMachine.Proofs.Interpreter.Instructions
import TalkMachine.Proofs.Interpreter.Integers
import TalkMachine.Proofs.Interpreter.Locals
import TalkMachine.Proofs.Interpreter.Nodes
import TalkMachine.Proofs.Interpreter.Runs
import TalkMachine.Proofs.Interpreter.Sends
import TalkMachine.Proofs.Machine.Arising
import TalkMachine.Proofs.Machine.Arrangement
import TalkMachine.Proofs.Machine.Beside
import TalkMachine.Proofs.Machine.Changes
import TalkMachine.Proofs.Machine.Circles
import TalkMachine.Proofs.Machine.ClassMaking
import TalkMachine.Proofs.Machine.ClassTable
import TalkMachine.Proofs.Machine.Classification
import TalkMachine.Proofs.Machine.Closed
import TalkMachine.Proofs.Machine.Definitions
import TalkMachine.Proofs.Machine.Equipment
import TalkMachine.Proofs.Machine.Fresh
import TalkMachine.Proofs.Machine.Hierarchy
import TalkMachine.Proofs.Machine.Inheritance
import TalkMachine.Proofs.Machine.InstanceSpecs
import TalkMachine.Proofs.Machine.Interning
import TalkMachine.Proofs.Machine.Kernel
import TalkMachine.Proofs.Machine.KernelMethods
import TalkMachine.Proofs.Machine.Lines
import TalkMachine.Proofs.Machine.Lookup
import TalkMachine.Proofs.Machine.Natives
import TalkMachine.Proofs.Machine.Orderly
import TalkMachine.Proofs.Machine.Overriding
import TalkMachine.Proofs.Machine.ParallelHierarchy
import TalkMachine.Proofs.Machine.Populated
import TalkMachine.Proofs.Machine.Refusals
import TalkMachine.Proofs.Machine.Room
import TalkMachine.Proofs.Machine.Singletons
import TalkMachine.Proofs.Machine.Standard
import TalkMachine.Proofs.Machine.Tracking
import TalkMachine.Proofs.Method
import TalkMachine.Proofs.Native.Equality
import TalkMachine.Proofs.Native.Indexed
import TalkMachine.Proofs.Native.Integer
import TalkMachine.Proofs.Native.Strings
import TalkMachine.Proofs.Native.Table
import TalkMachine.Proofs.Object.Header
import TalkMachine.Proofs.Stack.Bytes
import TalkMachine.Proofs.Stack.Frame
import TalkMachine.Proofs.Stack.Topped
import TalkMachine.Proofs.Stack.WordList
import TalkMachine.Proofs.Stack.Words
import TalkMachine.Proofs.Value.Encoding
import TalkMachine.Stack
import TalkMachine.Stack.Frame
import TalkMachine.Stack.Registry
import TalkMachine.Text.Printable
import TalkMachine.Text.Spelling
import TalkMachine.Text.Utf8
import TalkMachine.Value
import TalkMachine.Value.Describe
import TalkMachine.Word
