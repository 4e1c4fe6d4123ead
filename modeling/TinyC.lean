import TinyC.Text.Character
import TinyC.Text.Basic
import TinyC.Numeral
import TinyC.Position
import TinyC.Log
import TinyC.Token.Terminal
import TinyC.Token.Basic
import TinyC.Token.Lexeme
import TinyC.Token.Lexer
import TinyC.Tree.Node
import TinyC.Tree.Operator
import TinyC.Tree.Parser
import TinyC.Tree.ParseError
import TinyC.Tree.Session
import TinyC.Code.Instruction
import TinyC.Code.Generator
import TinyC.Assembly.Target
import TinyC.Assembly.Render
import TinyC.Compile
import TinyC.Tree.Source
import TinyC.Tree.Outline
import TinyC.Text.Utf8
import TinyC.File.Path
import TinyC.File.Tree
import TinyC.Assembly.Link
import TinyC.Command.Switch
import TinyC.Command.Usage
import TinyC.Command.Options
import TinyC.Command.Argument
import TinyC.Command.Host
import TinyC.Command.Run
import TinyC.Main
import TinyC.Proofs.Code.Machine
import TinyC.Proofs.Code.Value
import TinyC.Proofs.Code.Plain
import TinyC.Proofs.Code.Correctness
import TinyC.Proofs.Tree.Reading
import TinyC.Proofs.Tree.Grammar
import TinyC.Proofs.Tree.Exact
import TinyC.Proofs.Numeral
import TinyC.Proofs.Token.Literal
import TinyC.Proofs.Tree.Unambiguity
import TinyC.Proofs.Assembly.Processor
import TinyC.Proofs.Assembly.Backing
import TinyC.Proofs.Assembly.Correctness
import TinyC.Proofs.Token.Lexeme
import TinyC.Proofs.Token.Scanning
import TinyC.Proofs.Tree.Shape
import TinyC.Proofs.Tree.RoundTrip
import TinyC.Proofs.Token.Alphabet
import TinyC.Proofs.Token.Layout
import TinyC.Proofs.Token.Cursor
import TinyC.Proofs.Tree.Place
import TinyC.Proofs.Tree.Stuck
import TinyC.Proofs.Tree.Prefix
import TinyC.Proofs.Tree.Reach
import TinyC.Proofs.Code.Writable
import TinyC.Proofs.Code.Fault
import TinyC.Proofs.Code.Stack
import TinyC.Proofs.Code.Peak
import TinyC.Proofs.Code.Grouping
import TinyC.Proofs.Assembly.Decoding
import TinyC.Proofs.Compile
import TinyC.Proofs.Grouping
import TinyC.Proofs.Token.Spacing
import TinyC.Proofs.Tree.Unplaced
import TinyC.Proofs.Spacing
import TinyC.Proofs.File.Path
import TinyC.Proofs.File.Tree
import TinyC.Proofs.Command.Recording
import TinyC.Proofs.Command.Effects
import TinyC.Proofs.Command.Mode
import TinyC.Proofs.Command.Ending
import TinyC.Proofs.Command.Outcome
import TinyC.Proofs.Token.Longest
import TinyC.Proofs.Token.Apart
import TinyC.Proofs.Token.Resume
import TinyC.Proofs.Tree.Name
import TinyC.Proofs.Token.Respelling
import TinyC.Proofs.Tree.Constant
import TinyC.Proofs.Respelling
import TinyC.Proofs.Tree.Session
import TinyC.Proofs.Trace
import TinyC.Proofs.Tree.Formatting
import TinyC.Proofs.Tree.Outline
import TinyC.Proofs.Text.Quoted
import TinyC.Proofs.Outline
import TinyC.Proofs.Recursion.Budget
import TinyC.Proofs.Recursion.Reading
import TinyC.Proofs.Recursion.Calls
import TinyC.Proofs.Recursion.Source
import TinyC.Proofs.Recursion.Code
import TinyC.Proofs.Recursion
