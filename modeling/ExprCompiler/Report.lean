import ExprCompiler.CommandLine
import ExprCompiler.Structured
import ExprCompiler.Tree.Dump

/-!
# Reports

A report is everything that is shown for one program. It is made by tasks, each of which looks at
the program on its own: a task shows a section, replaces the warnings, or prepares the program to be
run. The first task that fails ends the report with its error.
-/

namespace ExprCompiler

/-- A program to process. -/
structure Program where
  name : String
  source : String
deriving Repr, DecidableEq

/-- A form of a program under its title. -/
structure Section where
  title : String
  body : String
deriving Repr, DecidableEq

/-- Everything shown for one program. -/
structure Report where
  sections : List Section := []
  warnings : List String := []
  /-- Why the program was given up. -/
  error : Option String := none
  /-- The compiled text to be run. -/
  runnable : Option String := none
deriving Repr, DecidableEq

/-- What can be done with a program. -/
inductive Task where
  | shunt
  | tokenize
  | ast
  | compile
  | run
deriving Repr, DecidableEq

namespace Task

/-- Every task, in the order in which a report is made. -/
def all : List Task := [shunt, tokenize, ast, compile, run]

/-- The option that asks for a task. -/
def flag : Task → Flag
  | shunt => .shunt
  | tokenize => .tokenize
  | ast => .ast
  | compile => .compile
  | run => .run

end Task

/-- How reports are made. -/
structure Report.Settings where
  /-- Sections hold structured output. -/
  json : Bool
  /-- The name of the target. -/
  target : String
  /-- The source placed ahead of a program that is run. -/
  library : String
deriving Repr, DecidableEq

/-- What a task adds to a report. Warnings, where there are any to tell, replace those before. -/
structure Report.Part where
  sections : List Section := []
  warnings : Option (List String) := none
  runnable : Option String := none
deriving Repr, DecidableEq

namespace Report

/-- Values one by one: as structured output, or each as its own text on lines of its own. -/
def listing {α : Type} (json : Bool) (toJson : α → Json) (render : α → String) (values : List α) :
    String :=
  if json then (Json.list (values.map toJson)).text
  else "\n".intercalate (values.map fun value => Text.trimEnd (render value))

/-- Diagnostics as warnings about a source text. -/
def warningsOf (diagnostics : List Diagnostic) (source : String) : List String :=
  diagnostics.map (·.render source)

/-- A syntax error as the error of a report. -/
def syntaxError (error : SyntaxError) (source : String) : String :=
  (CompileError.malformed error).render source

/-- The source that is run for a program: the library, then the program as further statements. -/
def runSource (library source : String) : String :=
  library ++ ";\n" ++ source

/-- What a task makes of a source text, or the error it fails with. -/
def perform (settings : Settings) (source : String) : Task → Except String Part
  | .shunt => do
    let shunted ← (Postfix.ofSource source).mapError (syntaxError · source)
    return { sections := [⟨"shunting",
               listing settings.json Item.toJson Item.display shunted.items⟩],
             warnings := some (warningsOf shunted.diagnostics source) }
  | .tokenize =>
    .ok { sections := [⟨"tokenizing",
      listing settings.json Token.toJson Token.display (tokenize source)⟩] }
  | .ast => do
    let forest ← (Forest.ofSource source).mapError (syntaxError · source)
    return { sections := [⟨"ast", listing settings.json Tree.toJson Tree.display forest.trees⟩],
             warnings := some (warningsOf forest.diagnostics source) }
  | .compile => do
    let compiled ← (ExprCompiler.compile settings.target source).mapError (·.render source)
    return { sections := [⟨"compiled",
               if settings.json then compiled.toJson.text else compiled.output⟩],
             warnings := some (warningsOf compiled.diagnostics source) }
  | .run => do
    let source := runSource settings.library source
    let compiled ← (ExprCompiler.compile settings.target source).mapError (·.render source)
    return { warnings := some (warningsOf compiled.diagnostics source),
             runnable := some compiled.output }

/-- The report with what a task adds. -/
def add (report : Report) (part : Part) : Report where
  sections := report.sections ++ part.sections
  warnings := part.warnings.getD report.warnings
  error := report.error
  runnable := part.runnable.or report.runnable

/-- Carries on with a report, task by task, up to the first that fails. -/
def extend (settings : Settings) (source : String) (report : Report) : List Task → Report
  | [] => report
  | task :: tasks =>
    match perform settings source task with
    | .ok part => extend settings source (report.add part) tasks
    | .error error => { report with error := some error }

/-- The report of the tasks on a source text. -/
def make (settings : Settings) (tasks : List Task) (source : String) : Report :=
  extend settings source {} tasks

end Report

end ExprCompiler
