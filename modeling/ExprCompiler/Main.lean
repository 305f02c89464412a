import ExprCompiler.Session

/-!
# The command

Collects what a session needs from the system, runs the session and writes what it leaves behind.
This command cannot start other commands, so a program that is to be run is reported as not started.
-/

namespace ExprCompiler

/-- Reads a file. -/
def readPath (path : String) : IO (Except FileFault ByteArray) := do
  try
    return .ok (← IO.FS.readBinFile path)
  catch
    | .noFileOrDirectory .. => return .error .missing
    | .inappropriateType .. => return .error .directory
    | error => return .error (.because (toString error))

/-- Reads a stream until the delimiter has been seen, or to its end. -/
partial def readStream (stream : IO.FS.Stream) (delimiter : List UInt8) (bytes : ByteArray) :
    IO ByteArray := do
  if Delimited.isComplete delimiter bytes.data.toList then return bytes
  let more ← stream.read 65536
  if more.isEmpty then return bytes else readStream stream delimiter (bytes ++ more)

/-- What a session with these arguments can find on this system. -/
def collectHost (arguments : List String) : IO Host := do
  let names := ["MINAT_BACKEND", "MINAT_PRELUDE", "MINAT_RUNTIME"]
  let settings ← names.mapM fun name => return (name, ← IO.getEnv name)
  let environment := fun name => (settings.lookup name).join
  let line := (CommandLine.parse arguments).toOption.getD .empty
  let config := (Config.ofEnvironment environment).override line.overrides
  let files ← (config.library :: line.files).mapM fun path => return (path, ← readPath path)
  let stdin ← match line.setting? .stdin with
    | some delimiter => readStream (← IO.getStdin) (Utf8.bytes (delimiter.getD "")) .empty
    | none => pure .empty
  return {
    environment, stdin
    file := fun path => (files.lookup path).getD (.error .missing)
    run := fun _ _ => .notStarted "Function not implemented (os error 38)" }

end ExprCompiler

/-- Runs a session with the arguments of the command. -/
def main (arguments : List String) : IO UInt32 := do
  let host ← ExprCompiler.collectHost arguments
  match ExprCompiler.Session.run host arguments with
  | some outcome =>
    IO.print outcome.transcript.stdout
    IO.eprint outcome.transcript.stderr
    return outcome.status.toUInt32
  | none =>
    IO.eprintln "error: the options are not used as they should be"
    IO.eprintln "\nFor more information, try '--help'."
    return 2
