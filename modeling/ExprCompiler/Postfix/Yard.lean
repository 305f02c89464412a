import ExprCompiler.Postfix
import ExprCompiler.SyntaxError

/-!
# The shunting yard

`Postfix.ofTokens` puts the tokens of a program into postfix form. A `Yard` holds what is waiting:
operators whose right operand is not complete, the delimiters still open among them, and a counter
for every call or array still open. `Yard.step` reads one token; it changes the yard and says which
items leave it. The items never influence a later step.
-/

namespace ExprCompiler

/-- The waiting part of a program. -/
structure Yard where
  /-- Operators and opening delimiters, the latest first. -/
  operators : List Token
  /-- How many elements each open call or array has so far, the innermost first. -/
  counts : List Nat
  /-- The kind of the last significant token. -/
  last : Option Kind
deriving Repr, DecidableEq

namespace Yard

/-- The yard before any token. -/
def empty : Yard := ⟨[], [], none⟩

/-- A token that waits for its operands, and opens no delimiter. -/
def isPending (token : Token) : Bool :=
  token.kind.opens?.isNone

/-- An opening delimiter that must not be the innermost one here, because it is none of `within`. -/
def unclosed? (within : List Delimiter) (operators : List Token) : Option SyntaxError :=
  operators.head?.bind fun top => top.kind.opens?.bind fun delimiter =>
    if delimiter ∈ within then none else some ⟨.unclosed delimiter.closing, some top.offset⟩

/-- Lets every operator above the innermost open delimiter leave, and keeps the others. That
delimiter, if there is one, has to be one of `within`. -/
def flush (within : List Delimiter) (operators : List Token) :
    Except SyntaxError (List Item × List Token) :=
  let below := operators.dropWhile isPending
  match unclosed? within below with
  | some error => .error error
  | none => .ok ((operators.takeWhile isPending).map .token, below)

/-- Lets every operator inside the innermost open delimiter leave, and takes that delimiter away,
which has to be the opening side of what `closing` closes. -/
def close (delimiter : Delimiter) (closing : Token) (operators : List Token) :
    Except SyntaxError (List Item × List Token) := do
  let (items, below) ← flush [delimiter] operators
  match below with
  | [] => .error ⟨.unopened delimiter.opening closing.text, some closing.offset⟩
  | _ :: outer => .ok (items, outer)

/-- A waiting operator leaves before one of the given level is added: it binds tighter, or equally
tight and to the left. -/
def yields (level : Nat) (top : Token) : Bool :=
  match top.binding? with
  | some binding =>
    level < binding.level || (level == binding.level && binding.associativity == .left)
  | none => false

/-- What a step leads to: the yard after it, and what left. -/
structure Move where
  yard : Yard
  items : List Item := []
  diagnostics : List Diagnostic := []
deriving Repr, DecidableEq

/-- Adds an operator between two operands. -/
def addOperator (yard : Yard) (token : Token) : Move :=
  match token.binding? with
  | some binding =>
    { yard := { yard with operators := token :: yard.operators.dropWhile (yields binding.level) },
      items := (yard.operators.takeWhile (yields binding.level)).map .token }
  | none => { yard := { yard with operators := token :: yard.operators } }

/-- Reads a comma: one more element of the innermost call or array. -/
def addComma (yard : Yard) (token : Token) : Except SyntaxError Move :=
  if yard.last = some .comma ∨ yard.last = some .callOpen ∨ yard.last = some .arrayOpen then
    .error ⟨.noElementBeforeComma, some token.offset⟩
  else match yard.counts with
    | [] => .error ⟨.commaOutside, some token.offset⟩
    | count :: counts => do
      let (items, operators) ← flush [.lambda, .array, .call] yard.operators
      return { yard := { yard with operators, counts := (count + 1) :: counts }, items }

/-- Reads the closing side of a call or an array. A pair that closes right after it was opened has
no elements. -/
def closeBracket (yard : Yard) (token : Token) (delimiter : Delimiter) (opener : Kind)
    (gathering : Gathering) : Except SyntaxError Move :=
  if yard.last = some .comma then
    .error ⟨.noElementAfterComma token.text, some token.offset⟩
  else do
    let count := if yard.last = some opener then 0 else yard.counts.headD 0
    let (items, operators) ← close delimiter token yard.operators
    return { yard := { yard with operators, counts := yard.counts.tail },
             items := items ++ [.arity gathering count] }

/-- What reading a token does, the memory of its kind apart. -/
def read (yard : Yard) (token : Token) : Except SyntaxError Move :=
  match token.kind with
  | .number | .string | .word | .placeholder => .ok { yard, items := [.token token] }
  | .separator => do
    let (items, operators) ← flush [.lambda] yard.operators
    return { yard := { yard with operators }, items }
  | .operator => .ok (yard.addOperator token)
  | .unaryOperator | .parenOpen =>
    .ok { yard := { yard with operators := token :: yard.operators } }
  | .callOpen | .arrayOpen =>
    .ok { yard := { yard with operators := token :: yard.operators, counts := 1 :: yard.counts } }
  | .comma => yard.addComma token
  | .callClose => yard.closeBracket token .call .callOpen .call
  | .arrayClose => yard.closeBracket token .array .arrayOpen .array
  | .parenClose => do
    let (items, operators) ← close .paren token yard.operators
    return { yard := { yard with operators }, items }
  | .lambdaOpen =>
    .ok { yard := { yard with operators := token :: yard.operators }, items := [.token token] }
  | .lambdaClose => do
    let (items, operators) ← close .lambda token yard.operators
    return { yard := { yard with operators }, items := items ++ [.token token] }
  | .whitespace => .ok { yard }
  | .other =>
    .ok { yard, diagnostics :=
      [⟨.shunt, "Unhandled token type " ++ token.kind.name ++ " (" ++ Text.quoted token.text ++ ")",
        some token.offset⟩] }

/-- The yard with the kind of the token just read, if that kind is significant. -/
def remember (yard : Yard) (kind : Kind) : Yard :=
  if kind.isSignificant then { yard with last := some kind } else yard

/-- Reads one token. -/
def step (yard : Yard) (token : Token) : Except SyntaxError Move := do
  let move ← yard.read token
  return { move with yard := move.yard.remember token.kind }

end Yard

/-- A program being put into postfix form: the yard, and all that has left it. -/
structure Shunting where
  yard : Yard
  items : Array Item
  diagnostics : Array Diagnostic
deriving Repr, DecidableEq

namespace Shunting

/-- Nothing read. -/
def initial : Shunting := ⟨.empty, #[], #[]⟩

/-- Reads one token. -/
def step (shunting : Shunting) (token : Token) : Except SyntaxError Shunting := do
  let move ← shunting.yard.step token
  return ⟨move.yard, shunting.items ++ move.items, shunting.diagnostics ++ move.diagnostics⟩

/-- Ends the program: nothing may be open. -/
def finish (shunting : Shunting) : Except SyntaxError Postfix := do
  let (items, _) ← Yard.flush [] shunting.yard.operators
  return ⟨(shunting.items ++ items).toList, shunting.diagnostics.toList⟩

end Shunting

/-- The postfix form of a list of tokens. -/
def Postfix.ofTokens (tokens : List Token) : Except SyntaxError Postfix := do
  let shunting ← tokens.foldlM Shunting.step .initial
  shunting.finish

end ExprCompiler
