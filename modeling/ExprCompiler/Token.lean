import ExprCompiler.Operator
import ExprCompiler.Text.Quoted

/-!
# Tokens

The kinds of tokens, the pairs of delimiters among them, and tokens themselves: a kind, the text as
it stands in the source, and the byte offset of its first character.
-/

namespace ExprCompiler

/-- The pairs of delimiters. Calls and arrays are written with the same brackets. -/
inductive Delimiter where
  | paren
  | call
  | array
  | lambda
deriving Repr, DecidableEq

namespace Delimiter

/-- How the opening side is written. -/
def opening : Delimiter → String
  | paren => "("
  | call => "["
  | array => "["
  | lambda => "\x7b"

/-- How the closing side is written. -/
def closing : Delimiter → String
  | paren => ")"
  | call => "]"
  | array => "]"
  | lambda => "\x7d"

end Delimiter

/-- The kinds of tokens. -/
inductive Kind where
  | number
  | string
  | word
  | placeholder
  | operator
  | unaryOperator
  | whitespace
  | separator
  | callOpen
  | arrayOpen
  | callClose
  | arrayClose
  | parenOpen
  | parenClose
  | comma
  | lambdaOpen
  | lambdaClose
  | other
deriving Repr, DecidableEq

namespace Kind

/-- The name of a kind in dumps and messages. -/
def name : Kind → String
  | number => "number"
  | string => "string"
  | word => "word"
  | placeholder => "abstract"
  | operator => "operator"
  | unaryOperator => "unary_operator"
  | whitespace => "whitespace"
  | separator => "separator"
  | callOpen => "bracket_open"
  | arrayOpen => "array_start"
  | callClose => "bracket_close"
  | arrayClose => "array_end"
  | parenOpen => "paren_open"
  | parenClose => "paren_close"
  | comma => "comma"
  | lambdaOpen => "lambda_start"
  | lambdaClose => "lambda_end"
  | other => "other"

/-- Kinds that are an operand by themselves. -/
def isData : Kind → Bool
  | number | string | word | placeholder => true
  | _ => false

/-- Kinds that can end an operand. After one of them an operator stands between two operands and a
square bracket opens a call. -/
def isDataSignifier : Kind → Bool
  | callClose | arrayClose | parenClose | lambdaClose => true
  | kind => kind.isData

/-- Kinds of operators. -/
def isOperator : Kind → Bool
  | operator | unaryOperator => true
  | _ => false

/-- Kinds that the next token's reading depends on: all but blanks and separators. -/
def isSignificant : Kind → Bool
  | whitespace | separator => false
  | _ => true

/-- The pair that a kind opens. -/
def opens? : Kind → Option Delimiter
  | parenOpen => some .paren
  | callOpen => some .call
  | arrayOpen => some .array
  | lambdaOpen => some .lambda
  | _ => none

end Kind

/-- A piece of the source text. -/
structure Token where
  kind : Kind
  text : String
  /-- The byte offset of the first character. -/
  offset : Nat
deriving Repr, DecidableEq

namespace Token

/-- A token as dumps and messages show it. -/
def display (token : Token) : String :=
  "Token(" ++ token.kind.name ++ ", " ++ Text.quoted token.text ++ ", " ++ token.offset.repr ++ ")"

/-- The binding of an operator of the table, and of no other token. Before its only operand an
operator binds at `Operator.unaryLevel`. -/
def binding? (token : Token) : Option Binding :=
  (Operator.find? token.text).bind fun op =>
    match token.kind with
    | .operator => some op.binding
    | .unaryOperator => some { op.binding with level := Operator.unaryLevel }
    | _ => none

end Token

end ExprCompiler
