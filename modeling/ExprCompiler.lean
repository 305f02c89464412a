import ExprCompiler.Main
import ExprCompiler.Target.Outline
import ExprCompiler.Proofs.Run
import ExprCompiler.Proofs.Text.Location
import ExprCompiler.Proofs.Text.Delimited
import ExprCompiler.Proofs.Text.Quoted
import ExprCompiler.Proofs.Token.Recognition
import ExprCompiler.Proofs.Token.Tiling
import ExprCompiler.Proofs.Token.Spacing
import ExprCompiler.Proofs.Token.Continuation
import ExprCompiler.Proofs.Token.Printing
import ExprCompiler.Proofs.Token.Resolution
import ExprCompiler.Proofs.Token.Extension
import ExprCompiler.Proofs.Tree.Encoding
import ExprCompiler.Proofs.Tree.Shortage
import ExprCompiler.Proofs.Tree.Order
import ExprCompiler.Proofs.Postfix.Delimiters
import ExprCompiler.Proofs.Postfix.Frame
import ExprCompiler.Proofs.Postfix.Arity
import ExprCompiler.Proofs.Postfix.RightSide
import ExprCompiler.Proofs.Postfix.Sequence
import ExprCompiler.Proofs.Postfix.Grammar
import ExprCompiler.Proofs.Postfix.Conservation
import ExprCompiler.Proofs.Postfix.Arrangement
import ExprCompiler.Proofs.Postfix.Stacking
import ExprCompiler.Proofs.Tree.Handling
import ExprCompiler.Proofs.Tree.Dump
import ExprCompiler.Proofs.Compilation
import ExprCompiler.Proofs.Origin
import ExprCompiler.Proofs.Relocation
import ExprCompiler.Proofs.Statements
import ExprCompiler.Proofs.Library
import ExprCompiler.Proofs.Target.Emission
import ExprCompiler.Proofs.Target.Lowering
import ExprCompiler.Proofs.Target.Reader
import ExprCompiler.Proofs.Target.Readback
import ExprCompiler.Proofs.Target.Composition
import ExprCompiler.Proofs.Target.Coverage
import ExprCompiler.Proofs.Layout
import ExprCompiler.Proofs.Positions
import ExprCompiler.Proofs.Report
import ExprCompiler.Proofs.CommandLine
import ExprCompiler.Proofs.Session
