/-!
# Operators

The table of operators. Its order matters to reading: of two operators that begin the same way the
one that stands first is taken, even when a later one is longer.
-/

namespace ExprCompiler

/-- Which of two equal neighbours binds first. -/
inductive Associativity where
  | left
  | right
deriving Repr, DecidableEq

/-- How tightly an operator holds its operands: a higher level holds tighter. -/
structure Binding where
  level : Nat
  associativity : Associativity
deriving Repr, DecidableEq

/-- An operator as it is written, with its binding between two operands. -/
structure Operator where
  symbol : String
  binding : Binding
deriving Repr, DecidableEq

namespace Operator

/-- Every operator, in the order in which reading tries them. -/
def table : List Operator :=
  [⟨":=", 5, .left⟩, ⟨".=", 5, .left⟩, ⟨"=", 20, .left⟩, ⟨"=>", 30, .left⟩, ⟨"+", 50, .left⟩,
   ⟨"-", 50, .left⟩, ⟨"*", 60, .left⟩, ⟨"/", 60, .left⟩, ⟨"^", 80, .right⟩]

/-- The level of an operator before its only operand, above every level of the table. -/
def unaryLevel : Nat := 4294967295

/-- The operator that is written `symbol`. -/
def find? (symbol : String) : Option Operator :=
  table.find? fun op => op.symbol == symbol

/-- The first operator of the table that the characters begin with. -/
def leading? (cs : List Char) : Option Operator :=
  table.find? fun op => op.symbol.toList.isPrefixOf cs

end Operator

end ExprCompiler
