import ExprCompiler.Target

/-!
# The Ruby target

Names, numbers and strings stand for themselves, calls become element access on the callee, and
lambdas keep their arguments in `_abstract`, where a placeholder finds them by its index. An
operation inside an operation is put into parentheses, so that the grouping of the tree does not
depend on how tightly Ruby's operators bind.
-/

namespace ExprCompiler

namespace Target.Ruby

/-- Defines `Ruby_`, which gives access to a method by its name. A name that begins with a dot is
sent to the first argument. -/
def preamble : String :=
  "\n".intercalate
    ["Ruby_ = lambda \x7b |cmd|",
     "    if cmd[0] == \".\"",
     "        lambda \x7b |first, *args|",
     "            first.send cmd[1..-1], *args",
     "        \x7d",
     "    else",
     "        lambda \x7b |*args|",
     "            send cmd, *args",
     "        \x7d",
     "    end",
     "\x7d",
     ""]

/-- A text in parentheses. -/
def parenthesized (text : String) : String :=
  "(" ++ text ++ ")"

/-- Emits an operand of an operator: in parentheses when it is an operation itself. -/
def operand (piece : Piece) : Emit String := do
  let text ← piece.emit
  match piece.tree with
  | .operator _ _ | .unary _ _ => return parenthesized text
  | _ => return text

/-- Emits a leaf. A placeholder is looked up by the index behind its underscores. -/
def value (token : Token) : Emit String :=
  match token.kind with
  | .placeholder =>
    match token.text.toList.dropWhile (· = '_') with
    | [] => do
      Emit.warn ("placeholder `" ++ token.text ++ "` has no argument index") (some token.offset)
      return "nil"
    | index => return "_abstract[" ++ String.ofList index ++ "]"
  | _ => return token.text

/-- Emits what is called: a name as it is written, a placeholder by its value, anything else in
parentheses. -/
def callee (piece : Piece) : Emit String :=
  match piece.tree with
  | .leaf token => if token.kind = .placeholder then piece.emit else return token.text
  | _ => parenthesized <$> piece.emit

/-- A choice between two values. -/
def conditional (condition positive negative : String) : String :=
  parenthesized
    (parenthesized condition ++ " ? " ++ parenthesized positive ++ " : " ++ parenthesized negative)

/-- Access to the element of `callee` that the arguments name. -/
def access (callee : String) (arguments : List String) : String :=
  callee ++ "[" ++ ", ".intercalate arguments ++ "]"

/-- Emits a call, its arguments first. A call of `If` with three arguments is a conditional. -/
def call (called : Piece) (arguments : List Piece) : Emit String := do
  let arguments ← Piece.emitAll arguments
  let callee ← callee called
  if callee = "If" then
    match arguments with
    | [condition, positive, negative] => return conditional condition positive negative
    | _ =>
      Emit.warn ("`If` takes 3 arguments, got " ++ arguments.length.repr) none
      return access callee arguments
  else return access callee arguments

/-- Emits a lambda. -/
def lambda (body : List Piece) : Emit String := do
  let statements ← Piece.emitAll body
  return "lambda \x7b |*args|\n_abstract=[nil,*args]\n" ++ ";".intercalate statements ++ "\n\x7d"

/-- Emits an array. -/
def array (elements : List Piece) : Emit String := do
  let elements ← Piece.emitAll elements
  return "[" ++ ", ".intercalate elements ++ "]"

/-- Emits an assignment. Its target should be a plain name. -/
def assignment (op : Token) (operands : List Piece) : Emit String :=
  match operands with
  | [target, value] => do
    let name ← match target.tree with
      | .leaf token => pure token.text
      | _ => do
        Emit.warn "assignment target is not a plain name" (some op.offset)
        target.emit
    let value ← value.emit
    return name ++ " = " ++ value
  | _ => do
    Emit.warn ("`" ++ op.text ++ "` expects a name and a value") (some op.offset)
    return ""

/-- What stands between the operands of an operator other than an assignment. -/
def connective? (symbol : String) : Option String :=
  if symbol = "=" then some "=="
  else if symbol ∈ ["+", "-", "/", "*"] then some symbol
  else none

/-- Emits an operator between its operands. -/
def operator (op : Token) (operands : List Piece) : Emit String :=
  if op.text = ":=" then assignment op operands
  else match connective? op.text with
    | some symbol => do
      let operands ← operands.mapM operand
      return symbol.intercalate operands
    | none => do
      Emit.warn ("operator `" ++ op.text ++ "` has no ruby lowering") (some op.offset)
      return ""

/-- Emits an operator before its operand. -/
def unary (op : Token) (piece : Piece) : Emit String :=
  if op.text ∈ ["-", "~", "*"] then do
    let text ← operand piece
    return op.text ++ text
  else do
    Emit.warn ("unary operator `" ++ op.text ++ "` has no ruby lowering") (some op.offset)
    return ""

end Target.Ruby

/-- Ruby text. -/
def Target.ruby : Target where
  name := "ruby"
  prologue := [Ruby.preamble]
  value := Ruby.value
  call := Ruby.call
  lambda := Ruby.lambda
  array := Ruby.array
  operator := Ruby.operator
  unary := Ruby.unary

end ExprCompiler
