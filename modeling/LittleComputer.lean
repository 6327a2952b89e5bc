import LittleComputer.Assembly.Error
import LittleComputer.Assembly.Layout
import LittleComputer.Assembly.Listing
import LittleComputer.Assembly.Program
import LittleComputer.Assembly.Report
import LittleComputer.Assembly.Resolve
import LittleComputer.Assembly.Symbols
import LittleComputer.CommandLine.Arguments
import LittleComputer.CommandLine.Assemble
import LittleComputer.CommandLine.Outcome
import LittleComputer.CommandLine.Run
import LittleComputer.Condition
import LittleComputer.Debugger.Breakpoints
import LittleComputer.Debugger.Command
import LittleComputer.Debugger.CommandTree
import LittleComputer.Debugger.Completion
import LittleComputer.Debugger.Event
import LittleComputer.Debugger.Input
import LittleComputer.Debugger.Location
import LittleComputer.Debugger.Session
import LittleComputer.Debugger.Words
import LittleComputer.Instruction.Basic
import LittleComputer.Instruction.Decode
import LittleComputer.Instruction.Encode
import LittleComputer.Instruction.Field
import LittleComputer.Instruction.Service
import LittleComputer.Instruction.Text
import LittleComputer.Log
import LittleComputer.Machine.Advance
import LittleComputer.Machine.Effect
import LittleComputer.Machine.InPlace
import LittleComputer.Machine.Memory
import LittleComputer.Machine.Registers
import LittleComputer.Machine.State
import LittleComputer.Machine.Step
import LittleComputer.Machine.Trap
import LittleComputer.Main
import LittleComputer.Proofs.Assembly.Agreement
import LittleComputer.Proofs.Assembly.Beginning
import LittleComputer.Proofs.Assembly.Capacity
import LittleComputer.Proofs.Assembly.Comments
import LittleComputer.Proofs.Assembly.Consistency
import LittleComputer.Proofs.Assembly.Emission
import LittleComputer.Proofs.Assembly.Labels
import LittleComputer.Proofs.Assembly.Layout
import LittleComputer.Proofs.Assembly.Operands
import LittleComputer.Proofs.Assembly.Printing
import LittleComputer.Proofs.Assembly.Range
import LittleComputer.Proofs.Assembly.Reach
import LittleComputer.Proofs.Assembly.Recasing
import LittleComputer.Proofs.Assembly.References
import LittleComputer.Proofs.Assembly.Relisting
import LittleComputer.Proofs.Assembly.Relocation
import LittleComputer.Proofs.Assembly.Resolve
import LittleComputer.Proofs.Assembly.Span
import LittleComputer.Proofs.Assembly.Stores
import LittleComputer.Proofs.Debugger.Argument
import LittleComputer.Proofs.Debugger.Cells
import LittleComputer.Proofs.Debugger.Effects
import LittleComputer.Proofs.Debugger.Evaluation
import LittleComputer.Proofs.Debugger.Listing
import LittleComputer.Proofs.Debugger.Location
import LittleComputer.Proofs.Debugger.Offset
import LittleComputer.Proofs.Debugger.Repetition
import LittleComputer.Proofs.Debugger.Replacement
import LittleComputer.Proofs.Debugger.Running
import LittleComputer.Proofs.Debugger.Splitting
import LittleComputer.Proofs.Debugger.Suggestion
import LittleComputer.Proofs.Instruction.Encoding
import LittleComputer.Proofs.Instruction.Inverse
import LittleComputer.Proofs.Machine.Atomicity
import LittleComputer.Proofs.Machine.Checked
import LittleComputer.Proofs.Machine.Console
import LittleComputer.Proofs.Machine.Exclusive
import LittleComputer.Proofs.Machine.Frame
import LittleComputer.Proofs.Machine.Fresh
import LittleComputer.Proofs.Machine.Guarded
import LittleComputer.Proofs.Machine.Halting
import LittleComputer.Proofs.Machine.Loading
import LittleComputer.Proofs.Machine.Needs
import LittleComputer.Proofs.Machine.Reference
import LittleComputer.Proofs.Machine.Refinement
import LittleComputer.Proofs.Machine.Requests
import LittleComputer.Proofs.Machine.Run
import LittleComputer.Proofs.Machine.Strings
import LittleComputer.Proofs.Machine.Unbounded
import LittleComputer.Proofs.Machine.Writes
import LittleComputer.Proofs.Outcome
import LittleComputer.Proofs.Source.Extent
import LittleComputer.Proofs.Source.Grammar
import LittleComputer.Proofs.Source.LetterCase
import LittleComputer.Proofs.Source.LineGrammar
import LittleComputer.Proofs.Source.Numbers
import LittleComputer.Proofs.Source.Quotation
import LittleComputer.Proofs.Source.Reading
import LittleComputer.Proofs.Source.Rendering
import LittleComputer.Proofs.Source.Spelling
import LittleComputer.Proofs.Source.Words
import LittleComputer.Register
import LittleComputer.Source.Line
import LittleComputer.Source.Literal
import LittleComputer.Source.Mnemonic
import LittleComputer.Source.Operand
import LittleComputer.Source.Scan
import LittleComputer.Text.Blank
import LittleComputer.Text.Case
import LittleComputer.Text.CodeRange
import LittleComputer.Text.Grapheme
import LittleComputer.Text.Grapheme.Conjunct
import LittleComputer.Text.Grapheme.Kind
import LittleComputer.Text.Grapheme.Mark
import LittleComputer.Text.Grapheme.Pictograph
import LittleComputer.Text.Hex
import LittleComputer.Text.Lines
import LittleComputer.Text.Printable
import LittleComputer.Text.Quoted
import LittleComputer.Text.Utf8
import LittleComputer.Word
