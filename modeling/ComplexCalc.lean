import ComplexCalc.Main
import ComplexCalc.Proofs.Grammar.Parsing
import ComplexCalc.Proofs.Grammar.Neighbours
import ComplexCalc.Proofs.Lexical.Longest
import ComplexCalc.Proofs.Lexical.Iteration
import ComplexCalc.Proofs.Environment.Functions
import ComplexCalc.Proofs.Session.Shape
import ComplexCalc.Proofs.Session.Step
import ComplexCalc.Proofs.Session.Run
import ComplexCalc.Proofs.Double.Exact
import ComplexCalc.Proofs.Double.Sign
import ComplexCalc.Proofs.Decimal.Positional
import ComplexCalc.Proofs.Decimal.ReadBack
import ComplexCalc.Proofs.Evaluation.Values
import ComplexCalc.Proofs.Lexical.Reading
import ComplexCalc.Proofs.Number.Terms
import ComplexCalc.Proofs.Session.ReadBack
import ComplexCalc.Proofs.Evaluation.Simulation
import ComplexCalc.Proofs.Evaluation.Agreement
import ComplexCalc.Proofs.Evaluation.Flattening
import ComplexCalc.Proofs.Evaluation.OpenCalls
import ComplexCalc.Proofs.Evaluation.Reach
import ComplexCalc.Proofs.Session.Reach
import ComplexCalc.Proofs.Decimal.Unsigned
import ComplexCalc.Proofs.Lexical.Tokens
import ComplexCalc.Proofs.Lexical.Rendering
import ComplexCalc.Proofs.Grammar.Leaves
import ComplexCalc.Proofs.Session.WellFormed
import ComplexCalc.Proofs.Evaluation.Progress
import ComplexCalc.Proofs.Session.Progress
import ComplexCalc.Proofs.Evaluation.Lexical
import ComplexCalc.Proofs.Evaluation.Enlargement
import ComplexCalc.Proofs.Session.Enlargement
import ComplexCalc.Proofs.Session.Statements
import ComplexCalc.Proofs.Console.Input
import ComplexCalc.Proofs.Console.Trace
import ComplexCalc.Proofs.Console.Agreement
import ComplexCalc.Proofs.Grammar.Faults
import ComplexCalc.Proofs.Session.Diagnostics
import ComplexCalc.Proofs.Console.Switches
import ComplexCalc.Proofs.Session.Closed
import ComplexCalc.Proofs.Console.Batch
import ComplexCalc.Proofs.Session.Acceptance
import ComplexCalc.Proofs.Console.Bindings
import ComplexCalc.Proofs.Lexical.Seams
import ComplexCalc.Proofs.Evaluation.Acyclic
import ComplexCalc.Proofs.Evaluation.Errors
import ComplexCalc.Proofs.Session.Context
import ComplexCalc.Proofs.Lexical.Language
import ComplexCalc.Proofs.Expr.Labels
import ComplexCalc.Proofs.Expr.Dump
import ComplexCalc.Proofs.Grammar.Runs
