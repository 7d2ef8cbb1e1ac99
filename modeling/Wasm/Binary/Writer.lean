import Wasm.Binary.Leb128

/-! Bytes under construction: the write side of the binary format. -/

namespace Wasm

/-- The bytes written so far. -/
structure Writer where
  bytes : ByteArray
deriving Inhabited

namespace Writer

def empty : Writer := ⟨.empty⟩

/-- Appends one byte. -/
def byte (w : Writer) (b : UInt8) : Writer := ⟨w.bytes.push b⟩

/-- Appends bytes. -/
def append (w : Writer) (part : ByteArray) : Writer := ⟨w.bytes ++ part⟩

/-- Appends an unsigned number in its shortest encoding. -/
def unsigned (w : Writer) (n : Nat) : Writer := w.append (Leb128.encodeUnsigned n).toByteArray

/-- Appends a signed number in its shortest encoding. -/
def signed (w : Writer) (n : Int) : Writer := w.append (Leb128.encodeSigned n).toByteArray

/-- The low `n` bytes of a number, least significant first. -/
def littleEndian : (n : Nat) → Nat → List UInt8
  | 0, _ => []
  | n + 1, value => value.toUInt8 :: littleEndian n (value / 256)

/-- Appends the low `n` bytes of a number, least significant first. -/
def fixed (w : Writer) (n value : Nat) : Writer := w.append (littleEndian n value).toByteArray

/-- Appends a name: the length of its UTF-8 form, then that form. -/
def name (w : Writer) (s : String) : Writer := (w.unsigned (s.utf8ByteSize % 1 <<< 32)).append s.toUTF8

/-- Appends a byte to be patched later, and tells its index. -/
def reserve (w : Writer) : Writer × Nat := (w.byte 0, w.bytes.size)

/-- Replaces a byte that was written before. -/
def patch (w : Writer) (index : Nat) (b : UInt8) : Except ReadError Writer :=
  if h : index < w.bytes.size then .ok ⟨w.bytes.set index b⟩ else .error (.unexpectedEnd w.bytes.size)

end Writer
end Wasm
