import Wasm.Instr.Opcode

/-! The names of opcodes. -/

namespace Wasm

def ValType.name : ValType → String
  | i32 => "I32"
  | i64 => "I64"
  | f32 => "F32"
  | f64 => "F64"

def Signedness.suffix : Signedness → String
  | signed => "S"
  | unsigned => "U"

def IntUnary.name : IntUnary → String
  | clz => "Clz"
  | ctz => "Ctz"
  | popcnt => "Popcnt"
  | extend8 => "Extend8S"
  | extend16 => "Extend16S"
  | extend32 => "Extend32S"

def IntBinary.name : IntBinary → String
  | add => "Add"
  | sub => "Sub"
  | mul => "Mul"
  | divS => "DivS"
  | divU => "DivU"
  | remS => "RemS"
  | remU => "RemU"
  | and => "And"
  | or => "Or"
  | xor => "Xor"
  | shl => "Shl"
  | shrS => "ShrS"
  | shrU => "ShrU"
  | rotl => "Rotl"
  | rotr => "Rotr"

def IntCompare.name : IntCompare → String
  | eq => "Eq"
  | ne => "Ne"
  | ltS => "LtS"
  | ltU => "LtU"
  | gtS => "GtS"
  | gtU => "GtU"
  | leS => "LeS"
  | leU => "LeU"
  | geS => "GeS"
  | geU => "GeU"

def FloatUnary.name : FloatUnary → String
  | abs => "Abs"
  | neg => "Neg"
  | ceil => "Ceil"
  | floor => "Floor"
  | trunc => "Trunc"
  | nearest => "Nearest"
  | sqrt => "Sqrt"

def FloatBinary.name : FloatBinary → String
  | add => "Add"
  | sub => "Sub"
  | mul => "Mul"
  | div => "Div"
  | min => "Min"
  | max => "Max"
  | copysign => "Copysign"

def FloatCompare.name : FloatCompare → String
  | eq => "Eq"
  | ne => "Ne"
  | lt => "Lt"
  | gt => "Gt"
  | le => "Le"
  | ge => "Ge"

/-- The name of a conversion: the type it gives, what it does, the type it takes. -/
def conversionName (target : ValType) (verb : String) (source : ValType) : String :=
  target.name ++ verb ++ source.name

def Numeric.name : Numeric → String
  | eqz w => w.int.name ++ "Eqz"
  | intUnary w op => w.int.name ++ op.name
  | intBinary w op => w.int.name ++ op.name
  | intCompare w op => w.int.name ++ op.name
  | floatUnary w op => w.float.name ++ op.name
  | floatBinary w op => w.float.name ++ op.name
  | floatCompare w op => w.float.name ++ op.name
  | wrap => conversionName .i32 "Wrap" .i64
  | extend sign => conversionName .i64 "Extend" .i32 ++ sign.suffix
  | truncate target source sign => conversionName target.int "Trunc" source.float ++ sign.suffix
  | truncateSat target source sign => conversionName target.int "TruncSat" source.float ++ sign.suffix
  | convert target source sign => conversionName target.float "Convert" source.int ++ sign.suffix
  | demote => conversionName .f32 "Demote" .f64
  | promote => conversionName .f64 "Promote" .f32
  | toBits w => conversionName w.int "Reinterpret" w.float
  | ofBits w => conversionName w.float "Reinterpret" w.int

/-- The number of bits of a narrow size. -/
def NarrowSize.name (size : NarrowSize) : String := toString (8 * size.bytes)

def LoadOp.name : LoadOp → String
  | full t => t.name ++ "Load"
  | narrow w size sign => w.int.name ++ "Load" ++ size.name ++ sign.suffix

def StoreOp.name : StoreOp → String
  | full t => t.name ++ "Store"
  | narrow w size => w.int.name ++ "Store" ++ size.name

def Opcode.name : Opcode → String
  | unreachable => "Unreachable"
  | nop => "Nop"
  | block => "Block"
  | loop => "Loop"
  | ifThen => "If"
  | elseMark => "Else"
  | endMark => "End"
  | br => "Br"
  | brIf => "BrIf"
  | brTable => "BrTable"
  | ret => "Return"
  | call => "Call"
  | drop => "Drop"
  | select => "Select"
  | selectTyped => "SelectTyped"
  | localGet => "LocalGet"
  | localSet => "LocalSet"
  | localTee => "LocalTee"
  | globalGet => "GlobalGet"
  | globalSet => "GlobalSet"
  | load op => op.name
  | store op => op.name
  | memorySize => "MemorySize"
  | memoryGrow => "MemoryGrow"
  | const t => t.name ++ "Const"
  | numeric op => op.name
  | extended => "Prefix"

def ExtendedOp.name : ExtendedOp → String
  | truncateSat target source sign => (Numeric.truncateSat target source sign).name
  | memoryInit => "MemoryInit"
  | dataDrop => "DataDrop"
  | memoryCopy => "MemoryCopy"
  | memoryFill => "MemoryFill"

end Wasm
