import Wasm.Binary.ReadError

/-! Readers of the binary format. A reader looks at an input and a position in it; it gives a value or an
    error, and in both cases the position it has come to. -/

namespace Wasm

/-- A reader whose failures are of type `ε`. The state is the position in the input. -/
abbrev Decoder (ε : Type) : Type → Type := ReaderT ByteArray (EStateM ε Nat)

/-- A reader of the binary format. -/
abbrev Reader : Type → Type := Decoder ReadError

/-- Positions and lengths are below this bound. -/
def addressLimit : Nat := 1 <<< 64

namespace Reader
variable {α : Type}

/-- The position reached so far. -/
def position : Reader Nat := fun _ pos => .ok pos pos

/-- The number of bytes not read yet. -/
def remaining : Reader Nat := fun data pos => .ok (data.size - pos) pos

/-- Stops, because the bytes from `offset` on break a rule. -/
def reject (rule : FormatRule) (offset : Nat) : Reader α := throw (.malformed rule offset)

/-- The next byte, which stays unread. -/
def peek : Reader UInt8 := fun data pos =>
  if h : pos < data.size then .ok data[pos] pos else .error (.unexpectedEnd pos) pos

/-- The next byte. -/
def byte : Reader UInt8 := fun data pos =>
  if h : pos < data.size then .ok data[pos] (pos + 1) else .error (.unexpectedEnd pos) pos

/-- The next `n` bytes, which stay unread. -/
def peekBytes (n : Nat) : Reader ByteArray := fun data pos =>
  if addressLimit ≤ pos + n then .error (.malformed .positionOverflow pos) pos
  else if pos + n ≤ data.size then .ok (data.extract pos (pos + n)) pos
  else .error (.unexpectedEnd pos) pos

/-- The next `n` bytes. -/
def bytes (n : Nat) : Reader ByteArray := fun data pos =>
  match peekBytes n data pos with
  | .ok part _ => .ok part (pos + n)
  | .error e _ => .error e pos

/-- Passes over `n` bytes. -/
def skip (n : Nat) : Reader Unit := discard (bytes n)

/-- Moves to `offset`; the end of the input is allowed. -/
def seekTo (offset : Nat) : Reader Unit := fun data pos =>
  if data.size < offset then .error (.unexpectedEnd offset) pos else .ok () offset

/-- Moves by `delta` bytes. -/
def seek (delta : Int) : Reader Unit := do
  let pos ← position
  if pos + delta < 0 then reject .seekBeforeStart pos else seekTo (pos + delta).toNat

/-- The number whose little-endian digits to base 256 are the given bytes. -/
def littleEndian (part : ByteArray) : Nat := part.data.foldr (fun b n => b.toNat + 256 * n) 0

/-- A little-endian number of `n` bytes. -/
def fixed (n : Nat) : Reader Nat := littleEndian <$> bytes n

/-- `n` bytes of ASCII text. -/
def ascii (n : Nat) : Reader String := do
  let start ← position
  let part ← bytes n
  if part.data.all (· < 128) then return String.ofList (part.data.toList.map fun b => Char.ofNat b.toNat)
  else throw (.invalidUtf8 start)

/-- Reads the next `n` bytes as an input of its own; its errors are told at their offset in the outer one. -/
def within (n : Nat) (inner : Reader α) : Reader α := do
  let base ← position
  let part ← bytes n
  match inner part 0 with
  | .ok a _ => return a
  | .error e _ => throw (e.shift base)

/-- The same reader, with its errors told `base` bytes further on. -/
def shifted (base : Nat) (inner : Reader α) : Reader α := fun data pos =>
  match inner data pos with
  | .ok a pos => .ok a pos
  | .error e pos => .error (e.shift base) pos

/-- `n` items, pushed one after another on `done`. -/
def items (item : Reader α) : Nat → Array α → Reader (Array α)
  | 0, done => pure done
  | n + 1, done => do items item n (done.push (← item))

end Reader
end Wasm
