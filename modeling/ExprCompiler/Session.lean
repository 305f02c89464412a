import ExprCompiler.Report
import ExprCompiler.Text.Delimited

/-!
# Sessions

A session is one run of the command line. What it finds around it is a `Host`: the environment, the
standard input, the files and the commands that compiled programs can be sent to. All programs are
read and processed before anything is written; then each program is shown in turn, and run if it is to
be run. The first run that fails ends the session. How it ends is a `Session.Ending`: what was written,
and the failure if there is one. What that leaves behind is a `Session.Outcome`: the texts on both
outputs, with the failure in words, and the exit status.
-/

namespace ExprCompiler

/-- Why a file has no text. -/
inductive FileFault where
  | missing
  | directory
  /-- The bytes of the file are not text. -/
  | notText
  /-- Any other reason, in words. -/
  | because (message : String)
deriving Repr, DecidableEq

/-- The wording of a fault. -/
def FileFault.message : FileFault → String
  | missing => "No such file or directory (os error 2)"
  | directory => "Is a directory (os error 21)"
  | notText => "stream did not contain valid UTF-8"
  | because message => message

/-- What comes of sending a program to a command. -/
inductive RunResult where
  /-- The command took the program, wrote `output` and ended with a status. -/
  | exited (output : String) (status : Nat)
  /-- The command could not be started. -/
  | notStarted (reason : String)
  /-- The command did not take the program. -/
  | notSent (reason : String)
deriving Repr, DecidableEq

/-- What surrounds a session. -/
structure Host where
  environment : String → Option String
  stdin : ByteArray
  /-- The bytes of the file at a path. -/
  file : String → Except FileFault ByteArray
  /-- What comes of sending a program to a command. -/
  run : (command program : String) → RunResult

/-- The text of the file at a path. -/
def Host.fileText (host : Host) (path : String) : Except FileFault String := do
  let bytes ← host.file path
  (Utf8.decode bytes).mapError fun _ => .notText

namespace Session

/-- Why a session fails. -/
inductive Failure where
  | unreadableInput (fault : Utf8.Fault)
  | unreadableFile (path : String) (fault : FileFault)
  | notStarted (command reason : String)
  | notSent (command reason : String)
  | badStatus (command : String) (status : Nat)
  | failedPrograms (count : Nat)
deriving Repr, DecidableEq

namespace Failure

/-- The wording of a failure. -/
def message : Failure → String
  | unreadableInput _ => "Unable to read program from stdin."
  | unreadableFile path _ => "Unable to read " ++ path ++ "."
  | notStarted command _ => "Unable to start runtime `" ++ command ++ "`."
  | notSent command _ => "Unable to send program to `" ++ command ++ "`."
  | badStatus command status => "`" ++ command ++ "` exited with exit status: " ++ status.repr
  | failedPrograms count => count.repr ++ " program(s) failed to compile"

/-- What lies behind a failure. -/
def reason? : Failure → Option String
  | unreadableInput fault => some fault.message
  | unreadableFile _ fault => some fault.message
  | notStarted _ reason => some reason
  | notSent _ reason => some reason
  | badStatus _ _ => none
  | failedPrograms _ => none

/-- A failure as it is written at the end of a session. -/
def text (failure : Failure) : String :=
  "Error: " ++ failure.message ++
    (failure.reason?.elim "" fun reason => "\n\nCaused by:\n    " ++ reason) ++ "\n"

end Failure

/-- What was written to both outputs. -/
structure Transcript where
  stdout : String
  stderr : String
deriving Repr, DecidableEq

/-- One transcript, then another. -/
def Transcript.append (first second : Transcript) : Transcript :=
  ⟨first.stdout ++ second.stdout, first.stderr ++ second.stderr⟩

instance : Append Transcript := ⟨Transcript.append⟩

/-- How a session ends. -/
structure Ending where
  transcript : Transcript
  /-- Why the session fails, if it does. -/
  failure : Option Failure
deriving Repr, DecidableEq

/-- What a session leaves behind. -/
structure Outcome where
  transcript : Transcript
  status : Nat
deriving Repr, DecidableEq

/-- What a session leaves behind that ends so. A failure is written last. -/
def Ending.outcome (ending : Ending) : Outcome :=
  match ending.failure with
  | none => ⟨ending.transcript, 0⟩
  | some failure => ⟨ending.transcript ++ ⟨"", failure.text⟩, 1⟩

/-! ## Reading programs -/

/-- Reads the program on the standard input, up to a delimiter. -/
def readInput (host : Host) (delimiter : String) : Except Failure Program := do
  let source ← (Delimited.readText delimiter host.stdin.data.toList).mapError .unreadableInput
  return ⟨"<stdin>", source⟩

/-- Reads a program file. -/
def readFile (host : Host) (path : String) : Except Failure Program := do
  let source ← (host.fileText path).mapError (.unreadableFile path)
  return ⟨path, source⟩

/-- The programs that a command line names. The standard input comes before a program given inline,
and that before files. -/
def readPrograms (host : Host) (line : CommandLine) : Except Failure (List Program) :=
  match line.setting? .stdin, line.value? .execute with
  | some delimiter, _ => return [← readInput host (delimiter.getD "")]
  | none, some source => .ok [⟨"-e", source⟩]
  | none, none => line.files.mapM (readFile host)

/-! ## Processing programs -/

/-- The configuration of a session. -/
def config (host : Host) (line : CommandLine) : Config :=
  (Config.ofEnvironment host.environment).override line.overrides

/-- The tasks that a command line asks for. -/
def tasks (line : CommandLine) : List Task :=
  Task.all.filter fun task => line.has task.flag

/-- How a command line wants its reports. A library that cannot be read counts as empty. -/
def reportSettings (host : Host) (line : CommandLine) (config : Config) : Report.Settings where
  json := line.has .json
  target := config.target
  library := (host.fileText config.library).toOption.getD ""

/-- The report of a program. -/
def process (host : Host) (line : CommandLine) (config : Config) (program : Program) : Report :=
  Report.make (reportSettings host line config) (tasks line) program.source

/-! ## Showing programs -/

/-- A line about a program behind a coloured label. -/
def labelled (colour label name text : String) : String :=
  "\x1b[" ++ colour ++ "m" ++ label ++ "\x1b[39m: " ++ name ++ ": " ++ text ++ "\n"

/-- What is written about a program before it is run. The name is shown where there are several. -/
def present (several : Bool) (name : String) (report : Report) : Transcript where
  stdout :=
    (if several then "==> " ++ name ++ " <==\n" else "") ++
      String.join (report.sections.map fun part => "[" ++ part.title ++ "]\n" ++ part.body ++ "\n")
  stderr :=
    String.join (report.warnings.map (labelled "33" "warning" name)) ++
      report.error.elim "" (labelled "31" "error" name)

/-- What running a program leads to: what it writes, and the failure of the run. -/
def runProgram (host : Host) (command program : String) : String × Option Failure :=
  match host.run command program with
  | .exited output 0 => (output, none)
  | .exited output status => (output, some (.badStatus command status))
  | .notStarted reason => ("", some (.notStarted command reason))
  | .notSent reason => ("", some (.notSent command reason))

/-- Shows programs one after the other, and runs those that are to be run and have no error, up to the
first run that fails. `failed` counts the programs with an error so far. -/
def showAll (host : Host) (command : String) (several : Bool) (transcript : Transcript)
    (failed : Nat) : List (Program × Report) → Ending
  | [] => ⟨transcript, if failed = 0 then none else some (.failedPrograms failed)⟩
  | (program, report) :: rest =>
    let transcript := transcript ++ present several program.name report
    match report.error, report.runnable with
    | some _, _ => showAll host command several transcript (failed + 1) rest
    | none, none => showAll host command several transcript failed rest
    | none, some text =>
      let (output, failure) := runProgram host command text
      let transcript := transcript ++ ⟨output, ""⟩
      match failure with
      | some _ => ⟨transcript, failure⟩
      | none => showAll host command several transcript failed rest

/-! ## Whole sessions -/

/-- Carries out a command line. -/
def execute (host : Host) (line : CommandLine) : Ending :=
  match readPrograms host line with
  | .error failure => ⟨⟨"", ""⟩, some failure⟩
  | .ok programs =>
    let config := config host line
    let reports := programs.map fun program => (program, process host line config program)
    showAll host config.runtime (programs.length > 1) ⟨"", ""⟩ 0 reports

/-- Runs a session, unless its options are not used as they should be. -/
def run (host : Host) (arguments : List String) : Option Outcome :=
  match CommandLine.parse arguments with
  | .ok line => some (execute host line).outcome
  | .error .help => some ⟨⟨CommandLine.helpText, ""⟩, 0⟩
  | .error .usage => none

end Session

end ExprCompiler
