/-!
# Configuration

What a run uses when the command line says nothing else. The environment comes before the defaults,
and an empty variable counts as not set.
-/

namespace ExprCompiler

/-- The settings of a run. -/
structure Config where
  /-- The name of the target to compile to. -/
  target : String
  /-- The path of the source placed ahead of a program that is run. -/
  library : String
  /-- The command that a compiled program is sent to. -/
  runtime : String
deriving Repr, DecidableEq

/-- Settings that replace those of a configuration. -/
structure Overrides where
  target : Option String := none
  library : Option String := none
  runtime : Option String := none
deriving Repr, DecidableEq

namespace Config

/-- The settings of an environment. -/
def ofEnvironment (environment : String → Option String) : Config :=
  let setting (name fallback : String) :=
    ((environment name).filter fun value => !value.isEmpty).getD fallback
  { target := setting "MINAT_BACKEND" "ruby"
    library := setting "MINAT_PRELUDE" "lib/std.mnt"
    runtime := setting "MINAT_RUNTIME" "ruby" }

/-- The settings with some of them replaced. -/
def override (config : Config) (overrides : Overrides) : Config where
  target := overrides.target.getD config.target
  library := overrides.library.getD config.library
  runtime := overrides.runtime.getD config.runtime

end Config

end ExprCompiler
