import ExprCompiler.Target

/-!
# The outline target

Writes every form of tree by its name, with what it consists of in parentheses. The outline shows
the order in which the parts of a program are emitted.
-/

namespace ExprCompiler

namespace Target.Outline

/-- Emits pieces from left to right, a space between two of them. -/
def spaced (pieces : List Piece) : Emit String := do
  let texts ← Piece.emitAll pieces
  return " ".intercalate texts

/-- Emits a call, the callee first. -/
def call (called : Piece) (arguments : List Piece) : Emit String := do
  let callee ← called.emit
  let arguments ← spaced arguments
  return "call(" ++ callee ++ "; " ++ arguments ++ ")"

/-- Emits an array, and reports an empty one. -/
def array (elements : List Piece) : Emit String := do
  if elements.isEmpty then Emit.warn "empty array" none
  let elements ← spaced elements
  return "array(" ++ elements ++ ")"

/-- Emits an operator between its operands, and reports a power. -/
def operator (op : Token) (operands : List Piece) : Emit String := do
  if op.text = "^" then Emit.warn "power" (some op.offset)
  let operands ← spaced operands
  return "op" ++ op.text ++ "(" ++ operands ++ ")"

end Target.Outline

/-- The outline of a program. -/
def Target.outline : Target where
  name := "outline"
  value token := return token.kind.name ++ ":" ++ token.text
  call := Outline.call
  lambda body := return "lambda@outline(" ++ (← Outline.spaced body) ++ ")"
  array := Outline.array
  operator := Outline.operator
  unary op piece := return "un" ++ op.text ++ "(" ++ (← piece.emit) ++ ")"

end ExprCompiler
