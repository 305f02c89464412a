import ExprCompiler.Config

/-!
# The command line

`CommandLine.parse` reads the arguments of a run from left to right. An argument is an option with a
long name, a group of options with one-letter names, a file, or the value of the option before it.
The first thing that settles the matter wins: a request for help, or a fault in the use of the
options.
-/

namespace ExprCompiler

/-- What can be asked for on the command line. -/
inductive Flag where
  | ast
  | compile
  | shunt
  | tokenize
  | run
  | stdin
  | execute
  | json
  | backend
  | library
  | runtime
  | help
deriving Repr, DecidableEq

/-- Whether an option has a value. -/
inductive ValueRule where
  | none
  | optional
  | required
deriving Repr, DecidableEq

namespace Flag

/-- Every option. -/
def all : List Flag :=
  [ast, compile, shunt, tokenize, run, stdin, execute, json, backend, library, runtime, help]

/-- The long name of an option. -/
def long : Flag → String
  | ast => "ast"
  | compile => "compile"
  | shunt => "shunt"
  | tokenize => "tokenize"
  | run => "run"
  | stdin => "stdin"
  | execute => "execute"
  | json => "json"
  | backend => "backend"
  | library => "prelude"
  | runtime => "runtime"
  | help => "help"

/-- The one-letter name of an option that has one. -/
def short? : Flag → Option Char
  | ast => some 'a'
  | compile => some 'c'
  | shunt => some 's'
  | tokenize => some 't'
  | run => some 'r'
  | stdin => some 'i'
  | execute => some 'e'
  | backend => some 'b'
  | help => some 'h'
  | _ => none

/-- Whether an option has a value. -/
def valueRule : Flag → ValueRule
  | stdin => .optional
  | execute | backend | library | runtime => .required
  | _ => .none

/-- The option of a long name, which has to be written in full. -/
def ofLong? (name : String) : Option Flag :=
  all.find? fun flag => flag.long == name

/-- The option of a one-letter name. -/
def ofShort? (letter : Char) : Option Flag :=
  all.find? fun flag => flag.short? == some letter

/-- Values that an option takes. A path is never empty. -/
def accepts (flag : Flag) (value : String) : Bool :=
  flag != library || !value.isEmpty

end Flag

/-- An option that was given, with its value if it has one. -/
structure Setting where
  flag : Flag
  value : Option String
deriving Repr, DecidableEq

/-- What a command line asks for. -/
structure CommandLine where
  /-- The options given, the latest first. -/
  settings : List Setting
  /-- The program files, the latest first. -/
  paths : List String
deriving Repr, DecidableEq

namespace CommandLine

/-- Why a command line is not carried out. -/
inductive Refusal where
  /-- Help was asked for. -/
  | help
  /-- The options are not used as they should be. -/
  | usage
deriving Repr, DecidableEq

/-- An empty command line. -/
def empty : CommandLine := ⟨[], []⟩

/-- The option was given. -/
def has (line : CommandLine) (flag : Flag) : Bool :=
  line.settings.any fun setting => setting.flag == flag

/-- The value of an option that was given, which is absent where the option has none. -/
def setting? (line : CommandLine) (flag : Flag) : Option (Option String) :=
  (line.settings.find? fun setting => setting.flag == flag).map Setting.value

/-- The value of an option. -/
def value? (line : CommandLine) (flag : Flag) : Option String :=
  (line.setting? flag).join

/-- The program files in the order in which they were given. -/
def files (line : CommandLine) : List String :=
  line.paths.reverse

/-- Adds an option. No option is given twice. -/
def addSetting (line : CommandLine) (flag : Flag) (value : Option String) :
    Except Refusal CommandLine :=
  if flag = .help then .error .help
  else if line.has flag || !value.all flag.accepts then .error .usage
  else .ok { line with settings := ⟨flag, value⟩ :: line.settings }

/-- Adds a program file. -/
def addFile (line : CommandLine) (path : String) : Except Refusal CommandLine :=
  if path.isEmpty then .error .usage else .ok { line with paths := path :: line.paths }

/-- An argument that cannot be a value or a file. A single dash can. -/
def isOption (argument : String) : Bool :=
  argument.toList.head? == some '-' && argument != "-"

/-- Options read from one argument: those complete, and the last one if it may take the next
argument as its value. -/
abbrev Partial := CommandLine × Option Flag

/-- Adds an option for which no value is attached. -/
def addBare (line : CommandLine) (flag : Flag) : Except Refusal Partial :=
  match flag.valueRule with
  | .none => return (← line.addSetting flag none, none)
  | _ => .ok (line, some flag)

/-- Reads a long name, with the value behind its equals sign if there is one. -/
def addLong (line : CommandLine) (name : String) (value : Option String) : Except Refusal Partial :=
  match Flag.ofLong? name, value with
  | none, _ => .error .usage
  | some flag, none => line.addBare flag
  | some flag, some value =>
    if flag.valueRule = .none then .error .usage
    else return (← line.addSetting flag (some value), none)

/-- Reads a group of one-letter names. What follows the name of an option with a value is that
value, with or without an equals sign between them. -/
def addShort (line : CommandLine) : List Char → Except Refusal Partial
  | [] => .ok (line, none)
  | letter :: rest =>
    match Flag.ofShort? letter with
    | none => .error .usage
    | some flag =>
      match flag.valueRule, rest with
      | .none, _ => do
        let line ← line.addSetting flag none
        line.addShort rest
      | _, [] => .ok (line, some flag)
      | _, '=' :: value => return (← line.addSetting flag (some (String.ofList value)), none)
      | _, value => return (← line.addSetting flag (some (String.ofList value)), none)

/-- A long name, apart from the value behind its first equals sign. -/
def splitLong (argument : List Char) : String × Option String :=
  (String.ofList (argument.takeWhile (· ≠ '=')),
   match argument.dropWhile (· ≠ '=') with
   | [] => none
   | _ :: value => some (String.ofList value))

/-- Ends the wait for a value: an option that needs one must not go without. -/
def addPending (line : CommandLine) (pending : Option Flag) : Except Refusal CommandLine :=
  match pending with
  | none => .ok line
  | some flag =>
    if flag.valueRule = .required then .error .usage else line.addSetting flag none

/-- Reads arguments. `pending` is the option that may take the next argument as its value. -/
def read (line : CommandLine) (pending : Option Flag) : List String → Except Refusal CommandLine
  | [] => line.addPending pending
  | argument :: rest => do
    if isOption argument then
      let line ← line.addPending pending
      match argument.toList with
      | ['-', '-'] => rest.foldlM addFile line
      | '-' :: '-' :: long =>
        let (name, value) := splitLong long
        let (line, pending) ← line.addLong name value
        line.read pending rest
      | letters =>
        let (line, pending) ← line.addShort letters.tail
        line.read pending rest
    else
      match pending with
      | some flag =>
        let line ← line.addSetting flag (some argument)
        line.read none rest
      | none =>
        let line ← line.addFile argument
        line.read none rest

/-- A program was named: as standard input, inline or as files. -/
def hasProgram (line : CommandLine) : Bool :=
  line.has .stdin || line.has .execute || !line.paths.isEmpty

/-- Something to do with programs was named. -/
def hasStage (line : CommandLine) : Bool :=
  [Flag.ast, .compile, .shunt, .tokenize, .run].any line.has

/-- Reads the arguments of a run. A line that names neither a program nor anything to do asks for
help. -/
def parse (arguments : List String) : Except Refusal CommandLine := do
  let line ← empty.read none arguments
  if line.hasProgram || line.hasStage then return line else throw .help

/-- The settings that a command line gives. -/
def overrides (line : CommandLine) : Overrides where
  target := line.value? .backend
  library := line.value? .library
  runtime := line.value? .runtime

/-- What is shown to someone who asks for help. -/
def helpText : String :=
  "\n".intercalate
    ["Tokenize, shunt, parse and compile Minat programs",
     "",
     "Usage: minat [OPTIONS] [FILES]...",
     "",
     "Arguments:",
     "  [FILES]...  Program files, each compiled on its own",
     "",
     "Options:",
     "  -a, --ast                Displays the AST of the input",
     "  -c, --compile            Displays the compiled output",
     "  -s, --shunt              Displays the result of shunting the input",
     "  -t, --tokenize           Displays the result of tokenizing the input",
     "  -r, --run                Runs the program",
     "  -i, --stdin [<DELIM>]    Reads the program from STDIN, until DELIM if given",
     "  -e, --execute <CODE>     Program text given inline",
     "      --json               Dump stages as JSON",
     "  -b, --backend <BACKEND>  Compile target",
     "      --prelude <PRELUDE>  Source prepended to the program for --run",
     "      --runtime <RUNTIME>  Command the compiled program is piped into for --run",
     "  -h, --help               Print help",
     ""]

end CommandLine

end ExprCompiler
