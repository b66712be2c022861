import XtAsm.CommandLine.Flag
import XtAsm.CommandLine.Run
import XtAsm.CommandLine.Tool
import XtAsm.Compiler.Backend
import XtAsm.Compiler.Basic
import XtAsm.Compiler.Logged
import XtAsm.Compiler.Session
import XtAsm.Expectation
import XtAsm.Failure
import XtAsm.Fault
import XtAsm.Files
import XtAsm.Listing.Basic
import XtAsm.Listing.Template
import XtAsm.Log
import XtAsm.Main
import XtAsm.Node.Basic
import XtAsm.Node.Generator
import XtAsm.Node.Printer
import XtAsm.Node.Trace
import XtAsm.Operator
import XtAsm.Parser.Fault
import XtAsm.Parser.State
import XtAsm.Parser.Step
import XtAsm.Program
import XtAsm.Proofs.Compiler.History
import XtAsm.Proofs.Compiler.Reports
import XtAsm.Proofs.Expectation.Extraction
import XtAsm.Proofs.Expectation.Form
import XtAsm.Proofs.Grammar.Basic
import XtAsm.Proofs.Grammar.Completeness
import XtAsm.Proofs.Grammar.Guards
import XtAsm.Proofs.Grammar.Soundness
import XtAsm.Proofs.Listing.Block
import XtAsm.Proofs.Listing.Contents
import XtAsm.Proofs.Listing.Correctness
import XtAsm.Proofs.Listing.Emission
import XtAsm.Proofs.Listing.Layout
import XtAsm.Proofs.Listing.Lowering
import XtAsm.Proofs.Listing.Machine
import XtAsm.Proofs.Listing.Reading
import XtAsm.Proofs.Listing.ShortCircuit
import XtAsm.Proofs.Listing.Simulation
import XtAsm.Proofs.Listing.Text
import XtAsm.Proofs.Node.Expressible
import XtAsm.Proofs.Node.Guards
import XtAsm.Proofs.Node.Induction
import XtAsm.Proofs.Node.Meaning
import XtAsm.Proofs.Node.Reprint
import XtAsm.Proofs.Node.Visit
import XtAsm.Proofs.Parser.Blame
import XtAsm.Proofs.Parser.CorrectPrefix
import XtAsm.Proofs.Parser.Placement
import XtAsm.Proofs.Parser.Reports
import XtAsm.Proofs.Parser.Run
import XtAsm.Proofs.Program.Assignments
import XtAsm.Proofs.Program.Enumerations
import XtAsm.Proofs.Program.Labels
import XtAsm.Proofs.Program.Location
import XtAsm.Proofs.Program.Numbering
import XtAsm.Proofs.Program.Operands
import XtAsm.Proofs.Program.RoundTrip
import XtAsm.Proofs.Program.Safety
import XtAsm.Proofs.Program.WellFormed
import XtAsm.Proofs.Scanner.Consumption
import XtAsm.Proofs.Scanner.Repetition
import XtAsm.Proofs.Source.Lines
import XtAsm.Proofs.Source.Normalisation
import XtAsm.Proofs.Stateful.Action
import XtAsm.Proofs.Stateful.Compiler
import XtAsm.Proofs.Stateful.Descent
import XtAsm.Proofs.Stateful.Encoder
import XtAsm.Proofs.Stateful.Lexer
import XtAsm.Proofs.Stateful.Parser
import XtAsm.Proofs.Stateful.Scanner
import XtAsm.Proofs.Stateful.Table
import XtAsm.Proofs.Stateful.Visitor
import XtAsm.Proofs.Terminal.Alignment
import XtAsm.Proofs.Terminal.Display
import XtAsm.Proofs.Terminal.Highlight
import XtAsm.Proofs.Text.Decoding
import XtAsm.Proofs.Text.Numeral
import XtAsm.Proofs.Text.Utf8
import XtAsm.Proofs.Token.Extent
import XtAsm.Proofs.Token.Layout
import XtAsm.Proofs.Token.Lexeme
import XtAsm.Proofs.Token.Lines
import XtAsm.Proofs.Token.Position
import XtAsm.Proofs.Token.Tiling
import XtAsm.Proofs.Wire.Delimiting
import XtAsm.Proofs.Wire.Guards
import XtAsm.Proofs.Wire.Layout
import XtAsm.Proofs.Wire.Recognition
import XtAsm.Proofs.Wire.RoundTrip
import XtAsm.Report
import XtAsm.Scanner
import XtAsm.Source.File
import XtAsm.Source.Position
import XtAsm.Terminal.Display
import XtAsm.Terminal.Escape
import XtAsm.Terminal.Table
import XtAsm.Text.Basic
import XtAsm.Text.Integer
import XtAsm.Text.Invisible
import XtAsm.Text.Quoted
import XtAsm.Text.Utf8
import XtAsm.Token.Basic
import XtAsm.Token.Kind
import XtAsm.Token.Lexer
import XtAsm.Wire.Decode
import XtAsm.Wire.Encode
