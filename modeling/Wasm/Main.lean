import Wasm.CommandLine.Command

/-! The command line. -/

namespace Wasm

/-- The settings that the environment gives. -/
def environmentOptions : IO Options := do
  let names := ["STACKWASM_CALL_DEPTH_LIMIT", "STACKWASM_RECURSION_GUARD", "STACKWASM_LOOP_GUARD"]
  let settings ← names.filterMapM fun name => do return (← IO.getEnv name).map (name, ·)
  return Options.ofEnvironment fun name => settings.lookup name

/-- More instructions than any run has time for. -/
def endlessFuel : Nat := 1 <<< 62

/-- Runs a command on its file. -/
def runCommand (c : Command) : IO Command.Result := do
  let options ← environmentOptions
  match ← (IO.FS.readBinFile c.file).toBaseIO with
  | .ok bytes => return c.run endlessFuel options bytes
  | .error (.noFileOrDirectory ..) => return c.unreadable Command.fileMissing
  | .error e => return c.unreadable (toString e)

end Wasm

open Wasm

def main (words : List String) : IO UInt32 := do
  match Command.parse? words none none [] with
  | none =>
    IO.eprintln "Usage: stackwasm [--invoke=NAME] FILE [ARGUMENTS]"
    return 2
  | some c =>
    let result ← runCommand c
    IO.print result.output
    IO.eprint result.errors
    return result.exitCode.toUInt32
