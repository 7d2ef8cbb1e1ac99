import Wasm.Value
import Wasm.Trap
import Wasm.Binary.Writer

/-! Linear memories. A write past the end makes the memory grow by whole pages, as far as its limit allows; a read
    past the end fails. A failed operation leaves the memory as it was. -/

namespace Wasm

/-- The bytes in a page. -/
def pageSize : Nat := 65536

/-- The pages that 32-bit addresses reach. -/
def maxPages : Nat := 65536

/-- The number of pages that bytes take up. -/
def pagesFor (size : Nat) : Nat := (size + (pageSize - 1)) / pageSize

/-- The bytes of a new page. -/
def zeroPage : ByteArray := ⟨Array.replicate pageSize 0⟩

/-- The bytes with as many new pages after them. -/
def appendPages (bytes : ByteArray) : Nat → ByteArray
  | 0 => bytes
  | n + 1 => appendPages (bytes ++ zeroPage) n

structure Memory where
  bytes : ByteArray
  limits : Limits
  /-- The name of the export of this memory. -/
  name : Option String := none
deriving Inhabited

namespace Memory

/-- An operation on a memory. -/
abbrev Op : Type → Type := EStateM Trap Memory

/-- A memory of as many pages as its limits ask for. -/
def new (limits : Limits) : Memory := ⟨appendPages .empty (min limits.min maxPages), limits, none⟩

def size (m : Memory) : Nat := m.bytes.size

/-- The size in pages. -/
def pages (m : Memory) : Nat := pagesFor m.bytes.size

/-- The most pages that the memory may have. -/
def pageLimit (m : Memory) : Nat := min (m.limits.max.getD maxPages) maxPages

/-- Adds pages up to the given number. -/
def extendTo (pages : Nat) : Memory → Memory
  | ⟨bytes, limits, name⟩ => ⟨appendPages bytes (pages - pagesFor bytes.size), limits, name⟩

/-- Adds pages, and gives the number there was before; gives none if there would be too many. -/
def grow (delta : Nat) (m : Memory) : Option Nat × Memory :=
  let before := m.pages
  if m.pageLimit < before + delta then (none, m) else (some before, m.extendTo (before + delta))

/-- Makes sure that `n` bytes from an address on can be written. -/
def reserve (address n : Nat) : Op Unit := fun m =>
  if addressLimit ≤ address + n then .error (.outOfBounds .memory address) m
  else if address + n ≤ m.bytes.size then .ok () m
  else if m.pageLimit < pagesFor (address + n) then .error (.outOfBounds .memory address) m
  else .ok () (m.extendTo (pagesFor (address + n)))

/-- The `n` bytes from an address on. -/
def read (address n : Nat) : Op ByteArray := fun m =>
  if address + n < addressLimit ∧ address + n ≤ m.bytes.size then .ok (m.bytes.extract address (address + n)) m
  else .error (.outOfBounds .memory address) m

/-- Replaces bytes that are there. -/
def overwrite (address : Nat) (part : ByteArray) : Memory → Memory
  | ⟨bytes, limits, name⟩ => ⟨part.copySlice 0 bytes address part.size false, limits, name⟩

/-- Writes bytes from an address on. -/
def write (address : Nat) (part : ByteArray) : Op Unit := fun m =>
  match reserve address part.size m with
  | .ok () m => .ok () (m.overwrite address part)
  | .error e m => .error e m

/-- The little-endian number of `n` bytes at an address. -/
def load (address n : Nat) : Op Nat := Reader.littleEndian <$> read address n

/-- Writes a number in `n` bytes, least significant first. -/
def store (address n value : Nat) : Op Unit := write address (Writer.littleEndian n value).toByteArray

/-- The value of a type at an address. -/
def loadValue (address : Nat) (t : ValType) : Op Value := Value.ofNat t <$> load address t.size

/-- Writes the bits of a value. -/
def storeValue (address : Nat) (v : Value) : Op Unit := store address v.type.size v.toNat

/-- Writes the same byte `n` times. -/
def fill (address : Nat) (b : UInt8) (n : Nat) : Op Unit := fun m =>
  match reserve address n m with
  | .ok () m => .ok () (m.overwrite address ⟨Array.replicate n b⟩)
  | .error e m => .error e m

/-- Writes to `target` the `n` bytes that are at `source` before. -/
def copy (target source n : Nat) : Op Unit := do
  let part ← read source n
  write target part

end Memory
end Wasm
