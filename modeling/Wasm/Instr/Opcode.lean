import Wasm.Numeric.Float

/-! Opcodes: the families of instructions without their immediates, and the bytes that stand for them. -/

namespace Wasm

/-! ### Families -/

/-- Instructions that only turn numbers on the stack into other numbers. -/
inductive Numeric
  | eqz (w : Width)
  | intUnary (w : Width) (op : IntUnary)
  | intBinary (w : Width) (op : IntBinary)
  | intCompare (w : Width) (op : IntCompare)
  | floatUnary (w : Width) (op : FloatUnary)
  | floatBinary (w : Width) (op : FloatBinary)
  | floatCompare (w : Width) (op : FloatCompare)
  /-- The low half of a 64-bit integer. -/
  | wrap
  /-- A 32-bit integer as a 64-bit one. -/
  | extend (sign : Signedness)
  /-- The integer part of a float of width `source` as an integer of width `target`. -/
  | truncate (target source : Width) (sign : Signedness)
  /-- The same, with the closest integer for what does not fit. -/
  | truncateSat (target source : Width) (sign : Signedness)
  /-- The float of width `target` that is nearest to an integer of width `source`. -/
  | convert (target source : Width) (sign : Signedness)
  | demote
  | promote
  /-- The bits of a float as an integer. -/
  | toBits (w : Width)
  /-- The float with the bits of an integer. -/
  | ofBits (w : Width)
deriving DecidableEq, Repr

/-- The sizes of numbers in memory that are narrower than those on the stack. -/
inductive NarrowSize
  | one
  | two
  | four
deriving DecidableEq, Repr

/-- The number of bytes. -/
def NarrowSize.bytes : NarrowSize → Nat
  | one => 1
  | two => 2
  | four => 4

inductive LoadOp
  | full (t : ValType)
  | narrow (w : Width) (size : NarrowSize) (sign : Signedness)
deriving DecidableEq, Repr

inductive StoreOp
  | full (t : ValType)
  | narrow (w : Width) (size : NarrowSize)
deriving DecidableEq, Repr

/-- The bytes that a load reads. -/
def LoadOp.size : LoadOp → Nat
  | full t => t.size
  | narrow _ size _ => size.bytes

/-- The type of the value that a store takes. -/
def StoreOp.type : StoreOp → ValType
  | full t => t
  | narrow w _ => w.int

/-- The bytes that a store writes. -/
def StoreOp.size : StoreOp → Nat
  | full t => t.size
  | narrow _ size => size.bytes

/-- What the first byte of an instruction tells. -/
inductive Opcode
  | unreachable
  | nop
  | block
  | loop
  | ifThen
  | elseMark
  | endMark
  | br
  | brIf
  | brTable
  | ret
  | call
  | drop
  | select
  | selectTyped
  | localGet
  | localSet
  | localTee
  | globalGet
  | globalSet
  | load (op : LoadOp)
  | store (op : StoreOp)
  | memorySize
  | memoryGrow
  | const (t : ValType)
  | numeric (op : Numeric)
  /-- A number follows, which tells an `ExtendedOp`. -/
  | extended
deriving DecidableEq, Repr

/-- What the number after the byte of `Opcode.extended` tells. -/
inductive ExtendedOp
  | truncateSat (target source : Width) (sign : Signedness)
  | memoryInit
  | dataDrop
  | memoryCopy
  | memoryFill
deriving DecidableEq, Repr

/-! ### Bytes -/

namespace Opcode

def intCompares : List IntCompare := [.eq, .ne, .ltS, .ltU, .gtS, .gtU, .leS, .leU, .geS, .geU]

def floatCompares : List FloatCompare := [.eq, .ne, .lt, .gt, .le, .ge]

def intUnaries : List IntUnary := [.clz, .ctz, .popcnt]

def intBinaries : List IntBinary :=
  [.add, .sub, .mul, .divS, .divU, .remS, .remU, .and, .or, .xor, .shl, .shrS, .shrU, .rotl, .rotr]

def floatUnaries : List FloatUnary := [.abs, .neg, .ceil, .floor, .trunc, .nearest, .sqrt]

def floatBinaries : List FloatBinary := [.add, .sub, .mul, .div, .min, .max, .copysign]

/-- The comparisons of integers of a width, the test for zero first. -/
def intTests (w : Width) : List Numeric := .eqz w :: intCompares.map (.intCompare w)

def intArithmetic (w : Width) : List Numeric := intUnaries.map (.intUnary w) ++ intBinaries.map (.intBinary w)

def floatArithmetic (w : Width) : List Numeric :=
  floatUnaries.map (.floatUnary w) ++ floatBinaries.map (.floatBinary w)

/-- The instructions that make an integer of width `w` from a float. -/
def truncations (w : Width) : List Numeric :=
  [.truncate w .w32 .signed, .truncate w .w32 .unsigned, .truncate w .w64 .signed, .truncate w .w64 .unsigned]

/-- The instructions that make a float of width `w` from an integer. -/
def conversions (w : Width) : List Numeric :=
  [.convert w .w32 .signed, .convert w .w32 .unsigned, .convert w .w64 .signed, .convert w .w64 .unsigned]

/-- The instructions on numbers, in the order of their bytes. -/
def numerics : List Numeric :=
  intTests .w32 ++ intTests .w64 ++
  floatCompares.map (.floatCompare .w32) ++ floatCompares.map (.floatCompare .w64) ++
  intArithmetic .w32 ++ intArithmetic .w64 ++ floatArithmetic .w32 ++ floatArithmetic .w64 ++
  [.wrap] ++ truncations .w32 ++ [.extend .signed, .extend .unsigned] ++ truncations .w64 ++
  conversions .w32 ++ [.demote] ++ conversions .w64 ++ [.promote] ++
  [.toBits .w32, .toBits .w64, .ofBits .w32, .ofBits .w64] ++
  [.intUnary .w32 .extend8, .intUnary .w32 .extend16,
   .intUnary .w64 .extend8, .intUnary .w64 .extend16, .intUnary .w64 .extend32]

/-- The loads, in the order of their bytes. -/
def loads : List LoadOp :=
  [.full .i32, .full .i64, .full .f32, .full .f64,
   .narrow .w32 .one .signed, .narrow .w32 .one .unsigned, .narrow .w32 .two .signed, .narrow .w32 .two .unsigned,
   .narrow .w64 .one .signed, .narrow .w64 .one .unsigned, .narrow .w64 .two .signed, .narrow .w64 .two .unsigned,
   .narrow .w64 .four .signed, .narrow .w64 .four .unsigned]

/-- The stores, in the order of their bytes. -/
def stores : List StoreOp :=
  [.full .i32, .full .i64, .full .f32, .full .f64,
   .narrow .w32 .one, .narrow .w32 .two, .narrow .w64 .one, .narrow .w64 .two, .narrow .w64 .four]

/-- The runs of bytes in use: the first byte of each, and what it and those after it stand for. -/
def runs : List (Nat × List Opcode) :=
  [(0x00, [unreachable, nop, block, loop, ifThen, elseMark]),
   (0x0B, [endMark, br, brIf, brTable, ret, call]),
   (0x1A, [drop, select, selectTyped]),
   (0x20, [localGet, localSet, localTee, globalGet, globalSet]),
   (0x28, loads.map load ++ stores.map store ++ [memorySize, memoryGrow, const .i32, const .i64, const .f32, const .f64] ++
      numerics.map numeric),
   (0xFC, [extended])]

/-- What a byte stands for. -/
def find? (b : Nat) : Option Opcode :=
  runs.findSome? fun (start, ops) => if start ≤ b then ops[b - start]? else none

/-- What each of the 256 bytes stands for. -/
def table : Array (Option Opcode) := Array.ofFn fun b : Fin 256 => find? b

/-- The opcode with the given byte. -/
def ofByte? (b : UInt8) : Option Opcode := table[b.toNat]?.join

end Opcode

namespace ExtendedOp

/-- All extended instructions, each at the place of its number. -/
def all : List ExtendedOp :=
  [truncateSat .w32 .w32 .signed, truncateSat .w32 .w32 .unsigned,
   truncateSat .w32 .w64 .signed, truncateSat .w32 .w64 .unsigned,
   truncateSat .w64 .w32 .signed, truncateSat .w64 .w32 .unsigned,
   truncateSat .w64 .w64 .signed, truncateSat .w64 .w64 .unsigned,
   memoryInit, dataDrop, memoryCopy, memoryFill]

/-- The extended instruction with the given number. -/
def ofNumber? (n : Nat) : Option ExtendedOp := all[n]?

end ExtendedOp
end Wasm
