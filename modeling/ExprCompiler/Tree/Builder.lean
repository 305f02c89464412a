import ExprCompiler.Postfix
import ExprCompiler.SyntaxError
import ExprCompiler.Tree

/-!
# Building trees

`Forest.ofItems` reduces a postfix form to the statements it stands for. A `Builder` holds the
operands that nothing has taken yet; a lambda sets the operands outside of it aside until it ends.
-/

namespace ExprCompiler

/-- The trees built so far. -/
structure Builder where
  /-- The operands nothing has taken, the latest first. -/
  operands : List Tree
  /-- The operands outside of each lambda still open, the innermost lambda first. -/
  enclosing : List (List Tree)
  diagnostics : Array Diagnostic

namespace Builder

/-- Nothing built. -/
def initial : Builder := ⟨[], [], #[]⟩

/-- The latest `count` operands in the order in which they were built, and those left. -/
def take (operands : List Tree) (count : Nat) (taker : Taker) (offset : Option Nat) :
    Except SyntaxError (List Tree × List Tree) :=
  let taken := operands.take count
  if taken.length < count then
    .error ⟨.missingOperands count taker operands.length, offset⟩
  else .ok (taken.reverse, operands.drop count)

/-- Reads one item. -/
def step (builder : Builder) (item : Item) : Except SyntaxError Builder :=
  match item with
  | .arity .call count => do
    let (arguments, rest) ← take builder.operands count .call none
    match rest with
    | [] => throw ⟨.missingCallee, none⟩
    | callee :: rest => return { builder with operands := .call callee arguments :: rest }
  | .arity .array count => do
    let (elements, rest) ← take builder.operands count .array none
    return { builder with operands := .array elements :: rest }
  | .token token =>
    match token.kind with
    | .number | .string | .word | .placeholder =>
      .ok { builder with operands := .leaf token :: builder.operands }
    | .operator => do
      let (operands, rest) ← take builder.operands 2 (.operator token.text) (some token.offset)
      return { builder with operands := .operator token operands :: rest }
    | .unaryOperator => do
      let (operands, rest) ← take builder.operands 1 (.operator token.text) (some token.offset)
      return { builder with operands := .unary token operands :: rest }
    | .lambdaOpen =>
      .ok { builder with operands := [], enclosing := builder.operands :: builder.enclosing }
    | .lambdaClose =>
      match builder.enclosing with
      | [] => .error ⟨.unmatchedLambda, some token.offset⟩
      | outer :: enclosing =>
        .ok { builder with operands := .lambda builder.operands.reverse :: outer, enclosing }
    | _ =>
      .ok { builder with diagnostics :=
        builder.diagnostics.push ⟨.build, "no handler for " ++ token.display, some token.offset⟩ }

/-- Ends the program: no lambda may be open. -/
def finish (builder : Builder) : Except SyntaxError Forest :=
  match builder.enclosing with
  | [] => .ok ⟨builder.operands.reverse, builder.diagnostics.toList⟩
  | _ :: _ => .error ⟨.unclosed Delimiter.lambda.closing, none⟩

end Builder

/-- The statements that a list of items stands for. -/
def Forest.ofItems (items : List Item) : Except SyntaxError Forest := do
  let builder ← items.foldlM Builder.step .initial
  builder.finish

end ExprCompiler
