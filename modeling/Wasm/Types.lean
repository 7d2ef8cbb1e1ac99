/-! Value types, signatures, limits and block types: the types that the binary format and the machine share. -/

namespace Wasm

/-- The four value types. -/
inductive ValType
  | i32
  | i64
  | f32
  | f64
deriving DecidableEq, Repr, Inhabited

namespace ValType

/-- The tag of a value type in the binary format. -/
def tag : ValType → UInt8
  | i32 => 0x7F
  | i64 => 0x7E
  | f32 => 0x7D
  | f64 => 0x7C

/-- The value type with the given tag. -/
def ofTag? (b : UInt8) : Option ValType :=
  if b = 0x7F then some i32
  else if b = 0x7E then some i64
  else if b = 0x7D then some f32
  else if b = 0x7C then some f64
  else none

/-- The keyword of a value type. -/
def text : ValType → String
  | i32 => "i32"
  | i64 => "i64"
  | f32 => "f32"
  | f64 => "f64"

@[simp] theorem ofTag?_tag (t : ValType) : ofTag? t.tag = some t := by cases t <;> rfl

theorem ofTag?_eq_some {b : UInt8} {t : ValType} : ofTag? b = some t ↔ b = t.tag := by
  constructor
  · intro h
    unfold ofTag? at h
    repeat' split at h
    all_goals first | (cases h; assumption) | cases h
  · rintro rfl
    exact ofTag?_tag t

end ValType

/-- A signature: what a function or block takes and what it gives, in order. -/
structure FuncType where
  params : List ValType
  results : List ValType
deriving DecidableEq, Repr, Inhabited

/-- The keywords of some types in parentheses. -/
def typeList (ts : List ValType) : String := "(" ++ " ".intercalate (ts.map ValType.text) ++ ")"

/-- A signature as it is listed: `(i32 f64) -> (i64)`. -/
def FuncType.text (t : FuncType) : String := typeList t.params ++ " -> " ++ typeList t.results

/-- The size bounds of a memory, in pages. -/
structure Limits where
  min : Nat
  max : Option Nat
deriving DecidableEq, Repr, Inhabited

/-- The signature of a block: nothing, one result, or an entry of the module's signature table. -/
inductive BlockType
  | empty
  | result (t : ValType)
  | signature (index : Nat)
deriving DecidableEq, Repr, Inhabited

/-- What a block takes (a count) and what it gives, or the index that the signature table lacks. -/
def BlockType.arity (types : Array FuncType) : BlockType → Except Nat (Nat × List ValType)
  | empty => .ok (0, [])
  | result t => .ok (0, [t])
  | signature index =>
    match types[index]? with
    | some t => .ok (t.params.length, t.results)
    | none => .error index

end Wasm
