import ExprCompiler.Text.Location

/-!
# Diagnostics

A diagnostic says that a stage met something it has no handling for. The output for that piece is
partial or empty, and the rest of the compilation carries on.
-/

namespace ExprCompiler

/-- The stages that report diagnostics. -/
inductive Stage where
  | shunt
  | build
  | generate
deriving Repr, DecidableEq

namespace Stage

/-- The name of a stage in structured output. -/
def name : Stage → String
  | shunt => "shunt"
  | build => "build"
  | generate => "generate"

/-- The label of a stage in messages. -/
def label : Stage → String
  | shunt => "SHUNT"
  | build => "AST"
  | generate => "COMPILE"

end Stage

/-- What a stage could not handle, and where it stands in the source when that is known. -/
structure Diagnostic where
  stage : Stage
  message : String
  offset : Option Nat
deriving Repr, DecidableEq

namespace Diagnostic

/-- A diagnostic without its place. -/
def display (diagnostic : Diagnostic) : String :=
  "[" ++ diagnostic.stage.label ++ "] " ++ diagnostic.message

/-- A diagnostic with its location in the source. -/
def render (diagnostic : Diagnostic) (source : String) : String :=
  Location.mark source diagnostic.display diagnostic.offset

end Diagnostic

end ExprCompiler
