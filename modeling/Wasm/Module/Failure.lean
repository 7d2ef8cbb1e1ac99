import Wasm.Trap
import Wasm.Value.Text

/-! Why a module cannot be loaded, or a call of it fails. -/

namespace Wasm

/-- What is wrong with the bytes of a module. -/
inductive Defect
  | truncatedHeader
  | magic
  | version
  | sectionOrder
  | unreadPayload
  /-- There are not as many bodies as declared functions. -/
  | bodyCount
  | bodyWithoutFunction
  | typeIndex (index : Nat)
  /-- An initializer reads a global that does not exist so far. -/
  | initialGlobal (index : Nat)
  | globalType (type : ValType) (init : Value)
  | exportIndex (name : String) (index : Nat)
  | dataOffset (found : Value)
  | dataMemory (index : Nat)
  | read (e : ReadError)
deriving DecidableEq, Repr

/-- A name between backquotes. -/
def backquoted (name : String) : String := "\x60" ++ name ++ "\x60"

def Defect.text : Defect → String
  | truncatedHeader => "truncated header"
  | magic => "bad magic header"
  | version => "unsupported version"
  | sectionOrder => "section out of order or repeated"
  | unreadPayload => "section payload not fully consumed"
  | bodyCount => "function and code section counts differ"
  | bodyWithoutFunction => "code body without a declared function"
  | typeIndex index => s!"type index {index} out of range"
  | initialGlobal index => s!"initializer reads unknown global {index}"
  | globalType type init => s!"global of type {type.text} initialised with {init.text}"
  | exportIndex name index => "export " ++ backquoted name ++ s!" index {index} out of range"
  | dataOffset found => s!"data offset must be i32, found {found.text}"
  | dataMemory index => s!"data segment targets missing memory {index}"
  | read e => e.message

inductive Failure
  | malformed (offset : Nat) (defect : Defect)
  | noExport (name : String)
  | trap (e : Trap)
  | unreadable (path : String)
  /-- The run did not end within the fuel it was given. -/
  | unfinished
deriving DecidableEq, Repr

def Failure.message : Failure → String
  | malformed offset defect => s!"malformed module at offset {offset}: {defect.text}"
  | noExport name => "no exported function named " ++ backquoted name
  | trap e => e.message
  | unreadable path => "failed to read " ++ path
  | unfinished => "run not finished"

end Wasm
