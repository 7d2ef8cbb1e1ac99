/-! Why a reader of the binary format stops: the cause and the byte offset where it was noticed. -/

namespace Wasm

/-- A rule of the binary format that the bytes break. -/
inductive FormatRule
  | seekBeforeStart
  | positionOverflow
  | sectionId
  | valueType
  | limitsOrder
  | limitsFlag
  | functionTypeForm
  | mutability
  | referenceType
  | initializerOpcode
  | initializerEnd
  | importKind
  | exportKind
  | tooManyLocals
  | dataFlags
  | blockType
  | blockTypeIndex
deriving DecidableEq, Repr

/-- The text of a broken rule. -/
def FormatRule.text : FormatRule → String
  | seekBeforeStart => "seek before start of stream"
  | positionOverflow => "position overflow"
  | sectionId => "unknown section id"
  | valueType => "invalid value type"
  | limitsOrder => "limits max < min"
  | limitsFlag => "invalid limits flag"
  | functionTypeForm => "expected function type (0x60)"
  | mutability => "invalid global mutability"
  | referenceType => "invalid reference type"
  | initializerOpcode => "unsupported initializer opcode"
  | initializerEnd => "initializer not terminated by end"
  | importKind => "invalid import kind"
  | exportKind => "invalid export kind"
  | tooManyLocals => "too many locals"
  | dataFlags => "invalid data segment flags"
  | blockType => "invalid block type"
  | blockTypeIndex => "block type index out of range"

/-- Why reading stopped, with the offset. -/
inductive ReadError
  | unexpectedEnd (offset : Nat)
  | lebOverflow (bits offset : Nat)
  | lebTooLong (limit offset : Nat)
  | invalidUtf8 (offset : Nat)
  | malformed (rule : FormatRule) (offset : Nat)
deriving DecidableEq, Repr

namespace ReadError

def offset : ReadError → Nat
  | unexpectedEnd offset => offset
  | lebOverflow _ offset => offset
  | lebTooLong _ offset => offset
  | invalidUtf8 offset => offset
  | malformed _ offset => offset

/-- The same error in an input that starts `base` bytes earlier. -/
def shift (base : Nat) : ReadError → ReadError
  | unexpectedEnd offset => unexpectedEnd (offset + base)
  | lebOverflow bits offset => lebOverflow bits (offset + base)
  | lebTooLong limit offset => lebTooLong limit (offset + base)
  | invalidUtf8 offset => invalidUtf8 (offset + base)
  | malformed rule offset => malformed rule (offset + base)

def message : ReadError → String
  | unexpectedEnd offset => s!"unexpected end of stream at offset {offset}"
  | lebOverflow bits offset => s!"LEB128 overflow (target bits={bits}) at offset {offset}"
  | lebTooLong limit offset => s!"too many bytes in LEB128 (limit={limit}) at offset {offset}"
  | invalidUtf8 offset => s!"invalid UTF-8 string at offset {offset}"
  | malformed rule offset => s!"malformed binary at offset {offset}: {rule.text}"

@[simp] theorem offset_shift (base : Nat) (e : ReadError) : (e.shift base).offset = e.offset + base := by
  cases e <;> rfl

@[simp] theorem shift_zero (e : ReadError) : e.shift 0 = e := by cases e <;> rfl

theorem shift_shift (a b : Nat) (e : ReadError) : (e.shift a).shift b = e.shift (a + b) := by
  cases e <;> simp [shift, Nat.add_assoc]

end ReadError
end Wasm
