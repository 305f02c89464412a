import ExprCompiler.Text.Location

/-!
# Syntax errors

A syntax error ends the compilation of a program. It has a cause and, where one token is to blame,
the byte offset of that token. The wording of every cause stands in `SyntaxError.Cause.message`.
-/

namespace ExprCompiler

/-- What takes operands: an operator, a call or an array. -/
inductive Taker where
  | operator (symbol : String)
  | call
  | array
deriving Repr, DecidableEq

/-- The name of a taker in messages. -/
def Taker.name : Taker → String
  | operator symbol => "`" ++ symbol ++ "`"
  | call => "a call"
  | array => "an array"

/-- Why a program is malformed. -/
inductive SyntaxError.Cause where
  /-- An opened pair lacks its closing side. -/
  | unclosed (closing : String)
  /-- A closing side has no opening side before it. -/
  | unopened (opening closing : String)
  /-- A comma follows no element. -/
  | noElementBeforeComma
  /-- A closing bracket follows a comma. -/
  | noElementAfterComma (closing : String)
  /-- A comma stands outside of calls and arrays. -/
  | commaOutside
  /-- Fewer operands than needed. -/
  | missingOperands (needed : Nat) (taker : Taker) (found : Nat)
  /-- A call has nothing to call. -/
  | missingCallee
  /-- A lambda ends that was not begun. -/
  | unmatchedLambda
  /-- Any other reason, in words. -/
  | because (message : String)
deriving Repr, DecidableEq

/-- The wording of a cause. -/
def SyntaxError.Cause.message : SyntaxError.Cause → String
  | unclosed closing => "Expected matching `" ++ closing ++ "`"
  | unopened opening closing =>
    "Expected an opening `" ++ opening ++ "` before `" ++ closing ++ "`"
  | noElementBeforeComma => "Expected an element before `,`"
  | noElementAfterComma closing => "Expected an element between `,` and `" ++ closing ++ "`"
  | commaOutside => "Unexpected `,` outside of a call or array"
  | missingOperands needed taker found =>
    "Expected " ++ needed.repr ++ " operand(s) for " ++ taker.name ++ ", found " ++ found.repr
  | missingCallee => "Expected something to call before `[`"
  | unmatchedLambda => "Unmatched `\x7d`"
  | because message => message

/-- A malformed program. -/
structure SyntaxError where
  cause : SyntaxError.Cause
  offset : Option Nat
deriving Repr, DecidableEq

namespace SyntaxError

/-- A syntax error without its place. -/
def message (error : SyntaxError) : String :=
  error.cause.message

/-- A syntax error with its location in the source. -/
def render (error : SyntaxError) (source : String) : String :=
  Location.mark source error.message error.offset

end SyntaxError

end ExprCompiler
