import RegisterMachine.Assembly.Builder
import RegisterMachine.Assembly.Diagnostic
import RegisterMachine.Assembly.Source
import RegisterMachine.Binary.Format
import RegisterMachine.Binary.Number
import RegisterMachine.Binary.Reading
import RegisterMachine.Binary.Shortest
import RegisterMachine.Command.Assembler
import RegisterMachine.Command.Outcome
import RegisterMachine.Command.Runner
import RegisterMachine.Config
import RegisterMachine.Disassembly
import RegisterMachine.Disk
import RegisterMachine.Fault
import RegisterMachine.Files
import RegisterMachine.Image
import RegisterMachine.Instruction
import RegisterMachine.Kind
import RegisterMachine.Listing
import RegisterMachine.Literal
import RegisterMachine.Log
import RegisterMachine.Machine.Basic
import RegisterMachine.Machine.Fetch
import RegisterMachine.Machine.Operation
import RegisterMachine.Machine.Step
import RegisterMachine.Main
import RegisterMachine.Memory
import RegisterMachine.Native
import RegisterMachine.Numeral
import RegisterMachine.Path
import RegisterMachine.Position
import RegisterMachine.Registers
import RegisterMachine.Stack
import RegisterMachine.Table
import RegisterMachine.Text.Blank
import RegisterMachine.Text.CharSet
import RegisterMachine.Text.Extender
import RegisterMachine.Text.Quoted
import RegisterMachine.Text.Unprintable
import RegisterMachine.Token
import RegisterMachine.Value
import RegisterMachine.Word
import RegisterMachine.Proofs.Footprint
import RegisterMachine.Proofs.Execution
import RegisterMachine.Proofs.Ram
import RegisterMachine.Proofs.Decoding
import RegisterMachine.Proofs.Interrupt
import RegisterMachine.Proofs.HostCall
import RegisterMachine.Proofs.Privilege
import RegisterMachine.Proofs.StackEffect
import RegisterMachine.Proofs.Trace
import RegisterMachine.Proofs.Dispatch
import RegisterMachine.Proofs.Handler
import RegisterMachine.Proofs.Encoding
import RegisterMachine.Proofs.Layout
import RegisterMachine.Proofs.Interning
import RegisterMachine.Proofs.Decimal
import RegisterMachine.Proofs.Lexing
import RegisterMachine.Proofs.Stream
import RegisterMachine.Proofs.SourceText
import RegisterMachine.Proofs.History
import RegisterMachine.Proofs.Conformance
import RegisterMachine.Proofs.Enlarging
import RegisterMachine.Proofs.Bracketing
import RegisterMachine.Proofs.Reboot
import RegisterMachine.Proofs.Intact
import RegisterMachine.Proofs.Pieces
import RegisterMachine.Proofs.Items
import RegisterMachine.Proofs.Building
import RegisterMachine.Proofs.Generated
import RegisterMachine.Proofs.Diagnosis
import RegisterMachine.Proofs.Fuel
import RegisterMachine.Proofs.StepLimit
import RegisterMachine.Proofs.Marshalling
import RegisterMachine.Proofs.Chronicle
import RegisterMachine.Proofs.Comparison
import RegisterMachine.Proofs.StoredText
import RegisterMachine.Proofs.Lines
import RegisterMachine.Proofs.Leading
import RegisterMachine.Proofs.ListingText
import RegisterMachine.Proofs.IntegerLiteral
import RegisterMachine.Proofs.Misspelling
import RegisterMachine.Proofs.NumericText
import RegisterMachine.Proofs.ByteRange
import RegisterMachine.Proofs.TopFirst
import RegisterMachine.Proofs.PathParts
import RegisterMachine.Proofs.FileLaws
import RegisterMachine.Proofs.DefaultOutput
