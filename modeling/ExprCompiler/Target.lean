import ExprCompiler.Tree

/-!
# Targets

A target turns trees into text. It is a record of hooks, one for each form of tree; `Target.emit`
walks a tree and hands every form to its hook. A hook receives the subtrees as pieces, which it
emits when and if it needs their text, so a hook decides the order in which its subtrees are emitted
and whether they are emitted at all. Emitting can record diagnostics.
-/

namespace ExprCompiler

/-- An action that yields a value and can record diagnostics behind those recorded before. -/
abbrev Emit := StateM (Array Diagnostic)

/-- Records something the target cannot express. -/
def Emit.warn (message : String) (offset : Option Nat) : Emit Unit :=
  modify fun diagnostics => diagnostics.push ⟨.generate, message, offset⟩

/-- A subtree, and the action that emits it. -/
structure Piece where
  tree : Tree
  emit : Emit String

/-- Emits pieces from left to right. -/
def Piece.emitAll (pieces : List Piece) : Emit (List String) :=
  pieces.mapM Piece.emit

/-- A language to compile to. -/
structure Target where
  name : String
  /-- Parts ahead of the program. -/
  prologue : List String := []
  /-- Parts behind the program. -/
  epilogue : List String := []
  /-- What stands between two parts. -/
  separator : String := "\n\n"
  value : Token → Emit String
  call : Piece → List Piece → Emit String
  lambda : List Piece → Emit String
  array : List Piece → Emit String
  operator : Token → List Piece → Emit String
  unary : Token → Piece → Emit String

namespace Target

mutual

/-- Emits a tree. An operator that lacks its only operand yields no text. -/
def emit (target : Target) : Tree → Emit String
  | .leaf token => target.value token
  | .operator op operands => target.operator op (target.pieces operands)
  | .unary op operands =>
    match target.pieces operands with
    | operand :: _ => target.unary op operand
    | [] => do
      Emit.warn ("unary `" ++ op.text ++ "` without an operand") (some op.offset)
      return ""
  | .lambda body => target.lambda (target.pieces body)
  | .array elements => target.array (target.pieces elements)
  | .call callee arguments => target.call ⟨callee, target.emit callee⟩ (target.pieces arguments)

/-- The pieces of a list of subtrees. -/
def pieces (target : Target) : List Tree → List Piece
  | [] => []
  | tree :: trees => ⟨tree, target.emit tree⟩ :: target.pieces trees

end

/-- A list of subtrees gives one piece each, in order. -/
theorem pieces_eq_map (target : Target) (trees : List Tree) :
    target.pieces trees = trees.map fun tree => ⟨tree, target.emit tree⟩ := by
  induction trees with
  | nil => rfl
  | cons tree trees ih => rw [pieces, ih, List.map_cons]

/-- Emits a program: the prologue, a part for each statement and the epilogue. -/
def generate (target : Target) (trees : List Tree) : Emit String := do
  let parts ← trees.mapM target.emit
  return target.separator.intercalate (target.prologue ++ parts ++ target.epilogue)

end Target

end ExprCompiler
