import ExprCompiler.Diagnostic
import ExprCompiler.Token

/-!
# Trees

A statement is a tree. Trees that are put together by hand need not be well formed: an operator may
have any number of operands.
-/

namespace ExprCompiler

/-- An expression. -/
inductive Tree where
  | leaf (token : Token)
  /-- An operator between its operands, two of them when it was read from a program. -/
  | operator (op : Token) (operands : List Tree)
  /-- An operator before its operand, a single one when it was read from a program. -/
  | unary (op : Token) (operands : List Tree)
  /-- A lambda; its body is a list of statements. -/
  | lambda (body : List Tree)
  | array (elements : List Tree)
  /-- Anything applied to arguments: a name, a literal or another expression. -/
  | call (callee : Tree) (arguments : List Tree)
deriving Inhabited

/-- The statements of a program, with what was reported on the way. -/
structure Forest where
  trees : List Tree
  diagnostics : List Diagnostic
deriving Inhabited

end ExprCompiler
