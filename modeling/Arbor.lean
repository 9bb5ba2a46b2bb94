import Arbor.Node.Walk
import Arbor.Engine.Rehearsal
import Arbor.Expectation
import Arbor.Json.Read
import Arbor.Main
import Arbor.Proofs.Build.Stack
import Arbor.Proofs.Session.History
import Arbor.Proofs.Session.Judgement
import Arbor.Proofs.Engine.Script
import Arbor.Proofs.Session.Postorder
import Arbor.Proofs.Session.Capacity
import Arbor.Proofs.Grammar.Derivation
import Arbor.Proofs.Grammar.Tree
import Arbor.Proofs.Grammar.Recognition
import Arbor.Proofs.Build.Input
import Arbor.Proofs.Grammar.Building
import Arbor.Proofs.Session.Grammar
import Arbor.Proofs.Build.Demand
import Arbor.Proofs.Node.Need
import Arbor.Proofs.Engine.Limits
import Arbor.Proofs.Token.Scan
import Arbor.Proofs.Grammar.Demands
import Arbor.Proofs.Grammar.Room
import Arbor.Proofs.Session.Limits
import Arbor.Proofs.Session.Defaults
import Arbor.Proofs.Node.Walk
import Arbor.Proofs.Session.Program
import Arbor.Proofs.Token.Word
import Arbor.Proofs.Grammar.Shape
import Arbor.Proofs.Grammar.Writing
import Arbor.Proofs.Session.Writing
import Arbor.Proofs.Evaluation.Expression
import Arbor.Proofs.Interpreter.Statement
import Arbor.Proofs.Session.Lockstep
import Arbor.Proofs.Interpreter.Effect
import Arbor.Proofs.Text.Lines
import Arbor.Proofs.CommandLine.Dialogue
import Arbor.Proofs.CommandLine.Modes
import Arbor.Proofs.Session.Symbols
import Arbor.Proofs.Session.Failure
import Arbor.Proofs.Token.Longest
import Arbor.Proofs.Evaluation.Exact
import Arbor.Proofs.Token.Separator
import Arbor.Proofs.Evaluation.Assignment
import Arbor.Proofs.Evaluation.Renaming
import Arbor.Proofs.Grammar.Viable
import Arbor.Proofs.Session.Viable
import Arbor.Proofs.Session.Refusal
import Arbor.Proofs.Token.Display
import Arbor.Proofs.Text.Numeral
import Arbor.Proofs.Text.Quoted
import Arbor.Proofs.Format.Tag
import Arbor.Proofs.Json.Spelling
import Arbor.Proofs.Json.Lexeme
import Arbor.Proofs.Json.Read
import Arbor.Proofs.Json.Written
import Arbor.Proofs.Snapshot.Json
import Arbor.Proofs.Node.Preorder
import Arbor.Proofs.Snapshot.Place
import Arbor.Proofs.Format.Treeviz
import Arbor.Proofs.Snapshot.Copy
import Arbor.Proofs.Session.Reading
import Arbor.Proofs.Grammar.Trace
import Arbor.Proofs.Grammar.Recursion
import Arbor.Proofs.Grammar.Mirror
import Arbor.Proofs.Expectation.Description
