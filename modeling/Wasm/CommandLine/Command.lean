import Wasm.CommandLine.Argument
import Wasm.Module.Session

/-! The command: it loads a module, and lists its exported functions or calls one of them. -/

namespace Wasm

/-- What the command is told to do. -/
structure Command where
  /-- The name of the module's file. -/
  file : String
  /-- The export to call. -/
  invoke : Option String := none
  arguments : List String := []

/-- The lines that a module prints. -/
abbrev Printed := Array String

/-- Prints its arguments in a line. -/
def printer : HostFunc Printed := fun arguments lines =>
  .ok #[] (lines.push (" ".intercalate (arguments.toList.map Value.text)))

/-- Imports that print: those whose names say so, if they give no results. -/
def printResolver : Resolver Printed := fun _ name t =>
  if name.startsWith "print" ∧ t.results = [] then some printer else none

namespace Command

/-- How the command ends. -/
structure Result where
  lines : Printed
  report : Option Report

/-- The status that the command gives back to who called it. -/
def Result.exitCode (r : Result) : Nat := if r.report.isSome then 1 else 0

def Result.output (r : Result) : String := "".intercalate (r.lines.toList.map (· ++ "\n"))

def Result.errors (r : Result) : String :=
  match r.report with
  | some report => "Error: " ++ report.detailed ++ "\n"
  | none => ""

/-- Calls an export with texts for its arguments, and prints its results. -/
def callExport (fuel : Nat) (m : Module Printed) (name : String) (texts : List String)
    (machine : Machine Printed) : Result :=
  match m.exports.find? fun e => e.1 = name with
  | none => ⟨machine.host, some { message := (Failure.noExport name).message }⟩
  | some (_, signature) =>
    match Argument.parseAll signature texts with
    | .error e => ⟨machine.host, some e.report⟩
    | .ok arguments =>
      match m.call fuel name arguments.toArray machine with
      | .ok results machine => ⟨machine.host ++ results.map Value.text, none⟩
      | .error e machine => ⟨machine.host, some ⟨backquoted name ++ " trapped", [e.message]⟩⟩

/-- The module could not be read from its file. -/
def unreadable (c : Command) (cause : String) : Result := ⟨#[], some ⟨"reading " ++ c.file, [cause]⟩⟩

/-- What the system says of a file that does not exist. -/
def fileMissing : String := "No such file or directory (os error 2)"

/-- Runs the command on the bytes of its file. -/
def run (c : Command) (fuel : Nat) (options : Options) (bytes : ByteArray) : Result :=
  match Module.load fuel bytes options printResolver #[] with
  | ⟨.error e, machine⟩ => ⟨machine.host, some ⟨"failed to load " ++ c.file, [e.message]⟩⟩
  | ⟨.ok m, machine⟩ =>
    match c.invoke with
    | some name => callExport fuel m name c.arguments machine
    | none =>
      let listed := m.exports.map fun (name, signature) => name ++ ": " ++ signature.text
      ⟨machine.host ++ listed.toArray, none⟩

/-- The command that the words after its name spell. An option may stand anywhere before `--`. -/
def parse? : (words : List String) → (file invoke : Option String) → (arguments : List String) → Option Command
  | [], some file, invoke, arguments => some ⟨file, invoke, arguments⟩
  | [], none, _, _ => none
  | "--" :: words, some file, invoke, arguments => some ⟨file, invoke, arguments ++ words⟩
  | "--" :: file :: words, none, invoke, arguments => some ⟨file, invoke, arguments ++ words⟩
  | "--" :: [], none, _, _ => none
  | "--invoke" :: name :: words, file, none, arguments => parse? words file (some name) arguments
  | word :: words, file, invoke, arguments =>
    let option := "--invoke=".toList
    if option.isPrefixOf word.toList ∧ invoke = none then
      parse? words file (some (String.ofList (word.toList.drop option.length))) arguments
    else if file = none then parse? words (some word) invoke arguments
    else parse? words file invoke (arguments ++ [word])

end Command
end Wasm
