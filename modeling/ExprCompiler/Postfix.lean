import ExprCompiler.Diagnostic
import ExprCompiler.Token

/-!
# Postfix form

A program in postfix form is a list of items: tokens, with every operator after its operands, and
markers that say how many of the operands before them belong to a call or an array. The opening and
the closing side of a lambda stay in the list around its body.
-/

namespace ExprCompiler

/-- What a marker makes of the operands before it. -/
inductive Gathering where
  | call
  | array
deriving Repr, DecidableEq

/-- The name of a gathering in dumps. -/
def Gathering.name : Gathering → String
  | call => "call_func"
  | array => "gather_array"

/-- An element of a postfix form. -/
inductive Item where
  | token (token : Token)
  /-- The `count` operands before this item belong together. -/
  | arity (gathering : Gathering) (count : Nat)
deriving Repr, DecidableEq

namespace Item

/-- The token of an item that is no marker. -/
def token? : Item → Option Token
  | .token t => some t
  | .arity _ _ => none

/-- An item as dumps show it. -/
def display : Item → String
  | .token t => "MSE(" ++ t.display ++ ")"
  | .arity gathering count => "MSE(" ++ gathering.name ++ ", " ++ count.repr ++ ")"

end Item

/-- A program in postfix form, with what was reported on the way. -/
structure Postfix where
  items : List Item
  diagnostics : List Diagnostic
deriving Repr, DecidableEq

end ExprCompiler
