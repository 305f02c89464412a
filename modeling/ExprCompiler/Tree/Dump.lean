import ExprCompiler.Text.Trim
import ExprCompiler.Tree

/-!
# Dumps of trees

A dump shows a tree line by line: the head of a tree, then its children, each on a line of its own
behind ` -- ` and indented by the depth of the tree. A child that has children itself is dumped one
level deeper; what stands around it is trimmed, so that its head is on the line of its parent. The head
of a call is the dump of its callee, which starts at depth zero again.
-/

namespace ExprCompiler

namespace Tree

/-- The indentation of the lines of a tree at a depth. -/
def indent (depth : Nat) : String :=
  String.ofList (List.replicate (2 * depth) ' ')

/-- The line of a head, and a line for each child, given by its text. -/
def lines (depth : Nat) (head : String) (children : List String) : String :=
  String.join ((indent depth ++ head ++ "\n") ::
    children.map fun child => indent depth ++ " -- " ++ child ++ "\n")

mutual

/-- The dump of a tree at a depth: of a leaf its token, of anything else complete lines. -/
def render (depth : Nat) : Tree → String
  | leaf token => token.display
  | operator op operands => lines depth op.display (renderChildren depth operands)
  | unary op operands => lines depth op.display (renderChildren depth operands)
  | lambda body => lines depth "lambda" (renderChildren depth body)
  | array elements => lines depth "array" (renderChildren depth elements)
  | call callee arguments =>
    lines depth (Text.trim (render 0 callee)) (renderChildren depth arguments)

/-- The texts of the children of a tree at a depth. -/
def renderChildren (depth : Nat) : List Tree → List String
  | [] => []
  | tree :: trees =>
    (match tree with
      | leaf token => token.display
      | _ => Text.trim (render (depth + 1) tree)) :: renderChildren depth trees

end

/-- A statement as it is shown. -/
def display (tree : Tree) : String :=
  render 0 tree

end Tree

end ExprCompiler
