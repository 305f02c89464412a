import ExprCompiler.Postfix.Yard
import ExprCompiler.Target.Ruby
import ExprCompiler.Token.Lexer
import ExprCompiler.Tree.Builder

/-!
# Compilation

From a source text to each of its forms: tokens, postfix form, trees, and the text of a target.
Every form carries the diagnostics of all stages before it, in the order of the stages.
-/

namespace ExprCompiler

/-- The postfix form of a source text. -/
def Postfix.ofSource (source : String) : Except SyntaxError Postfix :=
  Postfix.ofTokens (tokenize source)

/-- The statements of a source text. -/
def Forest.ofSource (source : String) : Except SyntaxError Forest := do
  let shunted ← Postfix.ofSource source
  let built ← Forest.ofItems shunted.items
  return { built with diagnostics := shunted.diagnostics ++ built.diagnostics }

namespace Target

/-- The targets that can be asked for by name. -/
def all : List Target := [ruby]

/-- The target of that name. -/
def find? (name : String) : Option Target :=
  all.find? fun target => target.name == name

end Target

/-- Why a program has no compiled text. -/
inductive CompileError where
  | malformed (error : SyntaxError)
  | unknownTarget (name : String) (known : List String)
deriving Repr, DecidableEq

namespace CompileError

/-- A compile error, with the message of a syntax error as `describe` words it. -/
def describe (describe : SyntaxError → String) : CompileError → String
  | malformed error => "syntax error: " ++ describe error
  | unknownTarget name known =>
    "No such compile target " ++ Text.quoted name ++ " (known: " ++ ", ".intercalate known ++ ")"

/-- A compile error without its place. -/
def message (error : CompileError) : String :=
  error.describe SyntaxError.message

/-- A compile error with its location in the source. -/
def render (error : CompileError) (source : String) : String :=
  error.describe (·.render source)

end CompileError

/-- The text of a target, with everything reported on the way. -/
structure Compiled where
  output : String
  diagnostics : List Diagnostic
deriving Repr, DecidableEq

/-- Compiles a source text to a target. -/
def compileTo (target : Target) (source : String) : Except CompileError Compiled := do
  let forest ← (Forest.ofSource source).mapError .malformed
  let (output, diagnostics) := (target.generate forest.trees).run #[]
  return ⟨output, forest.diagnostics ++ diagnostics.toList⟩

/-- The target of a name, or the names that could have been given. -/
def Target.resolve (name : String) : Except CompileError Target :=
  match find? name with
  | some target => .ok target
  | none => .error (.unknownTarget name (all.map Target.name))

/-- Compiles a source text to the target of a name, which is looked up before the text is read. -/
def compile (name source : String) : Except CompileError Compiled := do
  let target ← Target.resolve name
  compileTo target source

end ExprCompiler
