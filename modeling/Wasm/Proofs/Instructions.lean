import Wasm.Proofs.Code
import Wasm.Proofs.Locality
import Wasm.Proofs.Numbers

/-! Spellings of instructions: the byte of the opcode, and what stands behind it. The reader takes just these, so that a
    body is whole if and only if its bytes are those of some code and of the end of the function. -/

namespace Wasm
open Leb128

/-! ### Codes -/

/-- The byte that stands for a load. -/
def LoadOp.code? : LoadOp → Option UInt8
  | full .i32 => some 0x28
  | full .i64 => some 0x29
  | full .f32 => some 0x2A
  | full .f64 => some 0x2B
  | narrow .w32 .one .signed => some 0x2C
  | narrow .w32 .one .unsigned => some 0x2D
  | narrow .w32 .two .signed => some 0x2E
  | narrow .w32 .two .unsigned => some 0x2F
  | narrow .w32 .four _ => none
  | narrow .w64 .one .signed => some 0x30
  | narrow .w64 .one .unsigned => some 0x31
  | narrow .w64 .two .signed => some 0x32
  | narrow .w64 .two .unsigned => some 0x33
  | narrow .w64 .four .signed => some 0x34
  | narrow .w64 .four .unsigned => some 0x35

/-- The byte that stands for a store. -/
def StoreOp.code? : StoreOp → Option UInt8
  | full .i32 => some 0x36
  | full .i64 => some 0x37
  | full .f32 => some 0x38
  | full .f64 => some 0x39
  | narrow .w32 .one => some 0x3A
  | narrow .w32 .two => some 0x3B
  | narrow .w32 .four => none
  | narrow .w64 .one => some 0x3C
  | narrow .w64 .two => some 0x3D
  | narrow .w64 .four => some 0x3E

/-- The byte that stands for an instruction of one integer. -/
def IntUnary.code? : Width → IntUnary → Option UInt8
  | .w32, clz => some 0x67
  | .w32, ctz => some 0x68
  | .w32, popcnt => some 0x69
  | .w64, clz => some 0x79
  | .w64, ctz => some 0x7A
  | .w64, popcnt => some 0x7B
  | .w32, extend8 => some 0xC0
  | .w32, extend16 => some 0xC1
  | .w32, extend32 => none
  | .w64, extend8 => some 0xC2
  | .w64, extend16 => some 0xC3
  | .w64, extend32 => some 0xC4

/-- The byte that stands for an instruction of two 32-bit integers. That for 64-bit ones is 18 more. -/
def IntBinary.code : IntBinary → UInt8
  | add => 0x6A
  | sub => 0x6B
  | mul => 0x6C
  | divS => 0x6D
  | divU => 0x6E
  | remS => 0x6F
  | remU => 0x70
  | and => 0x71
  | or => 0x72
  | xor => 0x73
  | shl => 0x74
  | shrS => 0x75
  | shrU => 0x76
  | rotl => 0x77
  | rotr => 0x78

/-- The byte that stands for a comparison of 32-bit integers. That for 64-bit ones is 11 more. -/
def IntCompare.code : IntCompare → UInt8
  | eq => 0x46
  | ne => 0x47
  | ltS => 0x48
  | ltU => 0x49
  | gtS => 0x4A
  | gtU => 0x4B
  | leS => 0x4C
  | leU => 0x4D
  | geS => 0x4E
  | geU => 0x4F

/-- The byte that stands for an instruction of one 32-bit float. That for 64-bit ones is 14 more. -/
def FloatUnary.code : FloatUnary → UInt8
  | abs => 0x8B
  | neg => 0x8C
  | ceil => 0x8D
  | floor => 0x8E
  | trunc => 0x8F
  | nearest => 0x90
  | sqrt => 0x91

/-- The byte that stands for an instruction of two 32-bit floats. That for 64-bit ones is 14 more. -/
def FloatBinary.code : FloatBinary → UInt8
  | add => 0x92
  | sub => 0x93
  | mul => 0x94
  | div => 0x95
  | min => 0x96
  | max => 0x97
  | copysign => 0x98

/-- The byte that stands for a comparison of 32-bit floats. That for 64-bit ones is 6 more. -/
def FloatCompare.code : FloatCompare → UInt8
  | eq => 0x5B
  | ne => 0x5C
  | lt => 0x5D
  | gt => 0x5E
  | le => 0x5F
  | ge => 0x60

/-- The byte that stands for an instruction on numbers, if it is not an extended one. -/
def Numeric.code? : Numeric → Option UInt8
  | eqz .w32 => some 0x45
  | eqz .w64 => some 0x50
  | intUnary w op => op.code? w
  | intBinary .w32 op => some op.code
  | intBinary .w64 op => some (op.code + 18)
  | intCompare .w32 op => some op.code
  | intCompare .w64 op => some (op.code + 11)
  | floatUnary .w32 op => some op.code
  | floatUnary .w64 op => some (op.code + 14)
  | floatBinary .w32 op => some op.code
  | floatBinary .w64 op => some (op.code + 14)
  | floatCompare .w32 op => some op.code
  | floatCompare .w64 op => some (op.code + 6)
  | wrap => some 0xA7
  | truncate .w32 .w32 .signed => some 0xA8
  | truncate .w32 .w32 .unsigned => some 0xA9
  | truncate .w32 .w64 .signed => some 0xAA
  | truncate .w32 .w64 .unsigned => some 0xAB
  | extend .signed => some 0xAC
  | extend .unsigned => some 0xAD
  | truncate .w64 .w32 .signed => some 0xAE
  | truncate .w64 .w32 .unsigned => some 0xAF
  | truncate .w64 .w64 .signed => some 0xB0
  | truncate .w64 .w64 .unsigned => some 0xB1
  | convert .w32 .w32 .signed => some 0xB2
  | convert .w32 .w32 .unsigned => some 0xB3
  | convert .w32 .w64 .signed => some 0xB4
  | convert .w32 .w64 .unsigned => some 0xB5
  | demote => some 0xB6
  | convert .w64 .w32 .signed => some 0xB7
  | convert .w64 .w32 .unsigned => some 0xB8
  | convert .w64 .w64 .signed => some 0xB9
  | convert .w64 .w64 .unsigned => some 0xBA
  | promote => some 0xBB
  | toBits .w32 => some 0xBC
  | toBits .w64 => some 0xBD
  | ofBits .w32 => some 0xBE
  | ofBits .w64 => some 0xBF
  | truncateSat _ _ _ => none

namespace Opcode

/-- The byte that stands for an opcode. -/
def code? : Opcode → Option UInt8
  | unreachable => some 0x00
  | nop => some 0x01
  | block => some 0x02
  | loop => some 0x03
  | ifThen => some 0x04
  | elseMark => some 0x05
  | endMark => some 0x0B
  | br => some 0x0C
  | brIf => some 0x0D
  | brTable => some 0x0E
  | ret => some 0x0F
  | call => some 0x10
  | drop => some 0x1A
  | select => some 0x1B
  | selectTyped => some 0x1C
  | localGet => some 0x20
  | localSet => some 0x21
  | localTee => some 0x22
  | globalGet => some 0x23
  | globalSet => some 0x24
  | load op => op.code?
  | store op => op.code?
  | memorySize => some 0x3F
  | memoryGrow => some 0x40
  | const .i32 => some 0x41
  | const .i64 => some 0x42
  | const .f32 => some 0x43
  | const .f64 => some 0x44
  | numeric op => op.code?
  | extended => some 0xFC

theorem find?_of_load {op : LoadOp} {b : UInt8} (h : op.code? = some b) : find? b.toNat = some (load op) := by
  cases op with
  | full t => cases t <;> cases h <;> rfl
  | narrow w size sign => cases w <;> cases size <;> cases sign <;> cases h <;> rfl

theorem find?_of_store {op : StoreOp} {b : UInt8} (h : op.code? = some b) : find? b.toNat = some (store op) := by
  cases op with
  | full t => cases t <;> cases h <;> rfl
  | narrow w size => cases w <;> cases size <;> cases h <;> rfl

theorem find?_of_numeric {op : Numeric} {b : UInt8} (h : op.code? = some b) : find? b.toNat = some (numeric op) := by
  cases op with
  | eqz w => cases w <;> cases h <;> rfl
  | intUnary w op => cases w <;> cases op <;> cases h <;> rfl
  | intBinary w op => cases w <;> cases op <;> cases h <;> rfl
  | intCompare w op => cases w <;> cases op <;> cases h <;> rfl
  | floatUnary w op => cases w <;> cases op <;> cases h <;> rfl
  | floatBinary w op => cases w <;> cases op <;> cases h <;> rfl
  | floatCompare w op => cases w <;> cases op <;> cases h <;> rfl
  | wrap => cases h; rfl
  | extend sign => cases sign <;> cases h <;> rfl
  | truncate target source sign => cases target <;> cases source <;> cases sign <;> cases h <;> rfl
  | truncateSat target source sign => cases h
  | convert target source sign => cases target <;> cases source <;> cases sign <;> cases h <;> rfl
  | demote => cases h; rfl
  | promote => cases h; rfl
  | toBits w => cases w <;> cases h <;> rfl
  | ofBits w => cases w <;> cases h <;> rfl

/-- The table of the bytes is that of the codes. -/
theorem ofByte?_eq_some {b : UInt8} {op : Opcode} : ofByte? b = some op ↔ op.code? = some b := by
  rw [Instr.ofByte?_eq_find?]
  constructor
  · intro found
    have known : ∀ n : Fin 256, (find? n).all fun op => op.code? = some (.ofNat n) := by decide +kernel
    have code := known ⟨b.toNat, b.toNat_lt⟩
    simpa [found] using code
  · intro h
    cases op with
    | load op => exact find?_of_load h
    | store op => exact find?_of_store h
    | numeric op => exact find?_of_numeric h
    | const t => cases t <;> cases h <;> rfl
    | _ => cases h; rfl

end Opcode

namespace ExtendedOp

/-- The number that stands for an extended instruction. -/
def code : ExtendedOp → Nat
  | truncateSat .w32 .w32 .signed => 0
  | truncateSat .w32 .w32 .unsigned => 1
  | truncateSat .w32 .w64 .signed => 2
  | truncateSat .w32 .w64 .unsigned => 3
  | truncateSat .w64 .w32 .signed => 4
  | truncateSat .w64 .w32 .unsigned => 5
  | truncateSat .w64 .w64 .signed => 6
  | truncateSat .w64 .w64 .unsigned => 7
  | memoryInit => 8
  | dataDrop => 9
  | memoryCopy => 10
  | memoryFill => 11

theorem ofNumber?_eq_some {n : Nat} {op : ExtendedOp} : ofNumber? n = some op ↔ op.code = n := by
  have known : ∀ i : Fin all.length, all[i].code = i := by decide
  constructor
  · intro found
    obtain ⟨inside, rfl⟩ := List.getElem?_eq_some_iff.mp found
    exact known ⟨n, inside⟩
  · rintro rfl
    cases op with
    | truncateSat target source sign => cases target <;> cases source <;> cases sign <;> rfl
    | _ => rfl

end ExtendedOp

/-! ### Spellings -/

/-- The spellings of a constant of a type. -/
inductive Value.Spelled : ValType → Spelling Value
  | i32 {v : BitVec 32} {u} : SpelledSigned 32 v.toInt u → Spelled .i32 (.i32 v) u
  | i64 {v : BitVec 64} {u} : SpelledSigned 64 v.toInt u → Spelled .i64 (.i64 v) u
  | f32 {v : BitVec 32} : Spelled .f32 (.f32 v) (Writer.littleEndian 4 v.toNat)
  | f64 {v : BitVec 64} : Spelled .f64 (.f64 v) (Writer.littleEndian 8 v.toNat)

/-- What stands behind the number of an extended instruction. The bytes that tell a memory may be any. -/
inductive ExtendedOp.Behind : ExtendedOp → Spelling Plain
  | truncateSat {target source sign} : Behind (.truncateSat target source sign) (.numeric (.truncateSat target source sign)) []
  | memoryInit {n u memory} : Spelling.u32 n u → Behind .memoryInit (.memoryInit n) (u ++ [memory])
  | dataDrop {n u} : Spelling.u32 n u → Behind .dataDrop (.dataDrop n) u
  | memoryCopy {target source} : Behind .memoryCopy .memoryCopy [target, source]
  | memoryFill {memory} : Behind .memoryFill .memoryFill [memory]

/-- What stands behind the byte of an opcode. The bytes that tell a memory, and the types of a selection, may be any. -/
inductive Opcode.Behind : Opcode → Spelling Instr
  | unreachable : Behind .unreachable (.plain .unreachable) []
  | nop : Behind .nop (.plain .nop) []
  | block {type u} : type.Spelled u → Behind .block (.block type) u
  | loop {type u} : type.Spelled u → Behind .loop (.loop type) u
  | ifThen {type u} : type.Spelled u → Behind .ifThen (.ifThen type) u
  | elseMark : Behind .elseMark .elseMark []
  | endMark : Behind .endMark .endMark []
  | br {depth u} : Spelling.u32 depth u → Behind .br (.br depth) u
  | brIf {depth u} : Spelling.u32 depth u → Behind .brIf (.brIf depth) u
  | brTable {targets fallback u v} : Spelling.u32.Vector targets.toList u → Spelling.u32 fallback v →
    Behind .brTable (.brTable targets fallback) (u ++ v)
  | ret : Behind .ret .ret []
  | call {callee u} : Spelling.u32 callee u → Behind .call (.call callee) u
  | drop : Behind .drop (.plain .drop) []
  | select : Behind .select (.plain .select) []
  | selectTyped {types : Array UInt8} {u} : Spelling.Vector (fun b word => word = [b]) types.toList u →
    Behind .selectTyped (.plain .select) u
  | localGet {n u} : Spelling.u32 n u → Behind .localGet (.plain (.localGet n)) u
  | localSet {n u} : Spelling.u32 n u → Behind .localSet (.plain (.localSet n)) u
  | localTee {n u} : Spelling.u32 n u → Behind .localTee (.plain (.localTee n)) u
  | globalGet {n u} : Spelling.u32 n u → Behind .globalGet (.plain (.globalGet n)) u
  | globalSet {n u} : Spelling.u32 n u → Behind .globalSet (.plain (.globalSet n)) u
  | load {op arg u} : arg.Spelled u → Behind (.load op) (.plain (.load op arg)) u
  | store {op arg u} : arg.Spelled u → Behind (.store op) (.plain (.store op arg)) u
  | memorySize {memory} : Behind .memorySize (.plain .memorySize) [memory]
  | memoryGrow {memory} : Behind .memoryGrow (.plain .memoryGrow) [memory]
  | const {t v u} : v.Spelled t u → Behind (.const t) (.plain (.const v)) u
  | numeric {op} : Behind (.numeric op) (.plain (.numeric op)) []
  | extended {op : ExtendedOp} {p u v} : Spelling.u32 op.code u → op.Behind p v → Behind .extended (.plain p) (u ++ v)

/-- The spellings of an instruction: the byte of its opcode, and what stands behind it. -/
inductive Instr.Spelled : Spelling Instr
  | mk {op : Opcode} {b i u} : op.code? = some b → op.Behind i u → Spelled i (b :: u)

/-! ### Readers -/

theorem Decoder.Recognizes.discard {ε α : Type} {r : Decoder ε α} {L : Spelling α} (h : r.Recognizes L) :
    (discard r : Decoder ε Unit).Recognizes fun _ word => ∃ a, L a word where
  sound done inside := by
    obtain ⟨a, read⟩ := discard_eq_ok.mp done
    obtain ⟨word, spelled, rest⟩ := h.sound read inside
    exact ⟨word, ⟨a, spelled⟩, rest⟩
  complete := by
    rintro data pos _ _ small ⟨a, spelled⟩ occurs
    exact discard_eq_ok.mpr ⟨a, h.complete small spelled occurs⟩

namespace Instr
open Reader
variable {α : Type} {r : Reader α} {L : Spelling α}

theorem immediate_recognizes (h : r.Recognizes L) : (immediate r).Recognizes L where
  sound done inside := h.sound (immediate_eq_ok.mp done) inside
  complete small spelled occurs := immediate_eq_ok.mpr (h.complete small spelled occurs)

end Instr

namespace Reader

theorem skip_one_recognizes : (skip 1).Recognizes fun _ word => ∃ b, word = [b] :=
  (bytes_recognizes 1).discard.congr fun _ _ =>
    ⟨fun ⟨_, one⟩ => ⟨_, congrArg List.length one, rfl⟩, fun ⟨_, length, _⟩ => List.length_eq_one_iff.mp length⟩

section
variable {data : ByteArray} {pos next : Nat}

/-- However long the input is. -/
theorem u32_eq_ok {n : Nat} :
    u32 data pos = .ok n next ↔ ∃ word, Spelling.u32 n word ∧ Occurs word data pos ∧ next = pos + word.length := by
  constructor
  · exact fun number => u32_recognizes.sound number (u32_inside number).1
  · rintro ⟨word, spelled, occurs, rfl⟩
    have read : u32 data pos = _ :=
      unsignedFrom_word (show 32 ≤ 64 by decide) spelled.groups occurs spelled.inTime (show 0 + 7 * _ ≤ _ by decide) Nat.one_pos
    rwa [Nat.pow_zero, Nat.mul_one, Nat.zero_add, if_pos spelled.fits] at read

theorem memArg_eq_ok {arg : MemArg} :
    memArg data pos = .ok arg next ↔ ∃ word, arg.Spelled word ∧ Occurs word data pos ∧ next = pos + word.length := by
  constructor
  · intro read
    obtain ⟨_, _, number, -⟩ := Decoder.bind_ok_iff.mp read
    exact memArg_recognizes.sound read (u32_inside number).1
  · rintro ⟨_, ⟨align, offset⟩, occurs, rfl⟩
    obtain ⟨here, there⟩ := Occurs.append.mp occurs
    rw [List.length_append, ← Nat.add_assoc]
    exact Decoder.bind_ok_iff.mpr ⟨_, _, u32_eq_ok.mpr ⟨_, align, here, rfl⟩,
      Decoder.bind_ok_iff.mpr ⟨_, _, u32_eq_ok.mpr ⟨_, offset, there, rfl⟩, rfl⟩⟩

end

theorem float_recognizes (w : Width) :
    (do return .ofNat w.float (← fixed w.float.size) : Reader Value).Recognizes (Value.Spelled w.float) := by
  refine ((fixed_recognizes w.float.size).map (Value.ofNat w.float)).congr fun v word => ?_
  cases w with
  | w32 =>
    constructor
    · rintro ⟨⟩
      exact ⟨_, Value.ofNat_toNat (.f32 _), BitVec.isLt _, rfl⟩
    · rintro ⟨n, rfl, fits, rfl⟩
      have := Value.Spelled.f32 (v := .ofNat 32 n)
      rwa [BitVec.toNat_ofNat, Nat.mod_eq_of_lt (by exact fits)] at this
  | w64 =>
    constructor
    · rintro ⟨⟩
      exact ⟨_, Value.ofNat_toNat (.f64 _), BitVec.isLt _, rfl⟩
    · rintro ⟨n, rfl, fits, rfl⟩
      have := Value.Spelled.f64 (v := .ofNat 64 n)
      rwa [BitVec.toNat_ofNat, Nat.mod_eq_of_lt (by exact fits)] at this

theorem constant_recognizes (t : ValType) : (constant t).Recognizes (Value.Spelled t) := by
  cases t with
  | i32 =>
    refine (signed_ofInt_recognizes (by decide) Value.i32).congr fun v word => ⟨?_, ?_⟩
    · intro spelled
      cases spelled with
      | i32 number => exact ⟨_, rfl, number⟩
    · rintro ⟨v, rfl, number⟩
      exact .i32 number
  | i64 =>
    refine (signed_ofInt_recognizes (by decide) Value.i64).congr fun v word => ⟨?_, ?_⟩
    · intro spelled
      cases spelled with
      | i64 number => exact ⟨_, rfl, number⟩
    · rintro ⟨v, rfl, number⟩
      exact .i64 number
  | f32 => exact float_recognizes .w32
  | f64 => exact float_recognizes .w64

end Reader

namespace Instr
open Reader

/-- A byte that tells a memory, and nothing else. -/
theorem reserved_recognizes : (immediate (skip 1)).Recognizes fun _ word => ∃ b, word = [b] :=
  immediate_recognizes skip_one_recognizes

theorem index_recognizes : (immediate u32).Recognizes Spelling.u32 := immediate_recognizes u32_recognizes

theorem readExtended_recognizes : readExtended.Recognizes fun p word =>
    ∃ (op : ExtendedOp) (u v : List UInt8), Spelling.u32 op.code u ∧ op.Behind p v ∧ word = u ++ v := by
  refine (index_recognizes.bind (M := fun n p word => ∃ op : ExtendedOp, op.code = n ∧ op.Behind p word) fun n => ?_).congr
    fun p word => ⟨?_, ?_⟩
  · cases found : ExtendedOp.ofNumber? n with
    | none =>
      refine .fails (fun _ _ _ _ done => by cases done) fun _ _ ⟨op, number, _⟩ => ?_
      rw [ExtendedOp.ofNumber?_eq_some.mpr number] at found
      cases found
    | some op =>
      -- The number tells the instruction.
      have only : ∀ p word, (∃ op : ExtendedOp, op.code = n ∧ op.Behind p word) ↔ op.Behind p word := by
        intro p word
        constructor
        · rintro ⟨other, number, behind⟩
          obtain rfl : op = other := Option.some.inj (found.symm.trans (ExtendedOp.ofNumber?_eq_some.mpr number))
          exact behind
        · exact fun behind => ⟨op, ExtendedOp.ofNumber?_eq_some.mp found, behind⟩
      refine Decoder.Recognizes.congr ?_ only
      cases op with
      | truncateSat target source sign => exact .of_pure .truncateSat fun | .truncateSat => ⟨rfl, rfl⟩
      | memoryInit =>
        refine (index_recognizes.bind fun n => reserved_recognizes.bind fun _ => .pure (Plain.memoryInit n)).congr
          fun p word => ⟨?_, ?_⟩
        · intro behind
          cases behind with
          | memoryInit h => exact ⟨_, _, _, h, ⟨(), _, _, ⟨_, rfl⟩, ⟨rfl, rfl⟩, rfl⟩, rfl⟩
        · rintro ⟨_, _, _, h, ⟨_, _, _, ⟨_, rfl⟩, ⟨rfl, rfl⟩, rfl⟩, rfl⟩
          exact .memoryInit h
      | dataDrop => exact index_recognizes.of_map .dataDrop fun | .dataDrop h => ⟨_, rfl, h⟩
      | memoryCopy =>
        refine (reserved_recognizes.bind fun _ => reserved_recognizes.bind fun _ => .pure Plain.memoryCopy).congr
          fun p word => ⟨?_, ?_⟩
        · intro behind
          cases behind
          exact ⟨(), [_], [_], ⟨_, rfl⟩, ⟨(), _, _, ⟨_, rfl⟩, ⟨rfl, rfl⟩, rfl⟩, rfl⟩
        · rintro ⟨_, _, _, ⟨_, rfl⟩, ⟨_, _, _, ⟨_, rfl⟩, ⟨rfl, rfl⟩, rfl⟩, rfl⟩
          exact .memoryCopy
      | memoryFill => exact reserved_recognizes.of_map (fun ⟨_, one⟩ => one ▸ .memoryFill) fun | .memoryFill => ⟨(), rfl, _, rfl⟩
  · rintro ⟨op, u, v, number, behind, rfl⟩
    exact ⟨_, u, v, number, ⟨op, rfl, behind⟩, rfl⟩
  · rintro ⟨_, u, v, number, ⟨op, rfl, behind⟩, rfl⟩
    exact ⟨op, u, v, number, behind, rfl⟩

theorem readRest_recognizes (op : Opcode) : (readRest op).Recognizes op.Behind := by
  have index := index_recognizes
  have blockType := immediate_recognizes blockType_recognizes
  have memArg := immediate_recognizes memArg_recognizes
  have reserved := reserved_recognizes
  cases op with
  | unreachable => exact .of_pure .unreachable fun | .unreachable => ⟨rfl, rfl⟩
  | nop => exact .of_pure .nop fun | .nop => ⟨rfl, rfl⟩
  | block => exact blockType.of_map .block fun | .block h => ⟨_, rfl, h⟩
  | loop => exact blockType.of_map .loop fun | .loop h => ⟨_, rfl, h⟩
  | ifThen => exact blockType.of_map .ifThen fun | .ifThen h => ⟨_, rfl, h⟩
  | elseMark => exact .of_pure .elseMark fun | .elseMark => ⟨rfl, rfl⟩
  | endMark => exact .of_pure .endMark fun | .endMark => ⟨rfl, rfl⟩
  | br => exact index.of_map .br fun | .br h => ⟨_, rfl, h⟩
  | brIf => exact index.of_map .brIf fun | .brIf h => ⟨_, rfl, h⟩
  | brTable =>
    have targets := immediate_recognizes (vector_recognizes u32_recognizes (u32_recognizes.proper rfl))
    refine (targets.bind fun targets => index.map (Instr.brTable targets)).congr fun i word => ⟨?_, ?_⟩
    · intro behind
      cases behind with
      | brTable h h' => exact ⟨_, _, _, h, ⟨_, rfl, h'⟩, rfl⟩
    · rintro ⟨_, _, _, h, ⟨_, rfl, h'⟩, rfl⟩
      exact .brTable h h'
  | ret => exact .of_pure .ret fun | .ret => ⟨rfl, rfl⟩
  | call => exact index.of_map .call fun | .call h => ⟨_, rfl, h⟩
  | drop => exact .of_pure .drop fun | .drop => ⟨rfl, rfl⟩
  | select => exact .of_pure .select fun | .select => ⟨rfl, rfl⟩
  | selectTyped =>
    have types := (immediate_recognizes (vector_recognizes byte_recognizes fun _ => nofun)).discard
    exact types.of_map (fun ⟨_, h⟩ => .selectTyped h) fun | .selectTyped h => ⟨(), rfl, _, h⟩
  | localGet => exact index.of_map .localGet fun | .localGet h => ⟨_, rfl, h⟩
  | localSet => exact index.of_map .localSet fun | .localSet h => ⟨_, rfl, h⟩
  | localTee => exact index.of_map .localTee fun | .localTee h => ⟨_, rfl, h⟩
  | globalGet => exact index.of_map .globalGet fun | .globalGet h => ⟨_, rfl, h⟩
  | globalSet => exact index.of_map .globalSet fun | .globalSet h => ⟨_, rfl, h⟩
  | load op => exact memArg.of_map .load fun | .load h => ⟨_, rfl, h⟩
  | store op => exact memArg.of_map .store fun | .store h => ⟨_, rfl, h⟩
  | memorySize => exact reserved.of_map (fun ⟨_, one⟩ => one ▸ .memorySize) fun | .memorySize => ⟨(), rfl, _, rfl⟩
  | memoryGrow => exact reserved.of_map (fun ⟨_, one⟩ => one ▸ .memoryGrow) fun | .memoryGrow => ⟨(), rfl, _, rfl⟩
  | const t => exact (immediate_recognizes (constant_recognizes t)).of_map .const fun | .const h => ⟨_, rfl, h⟩
  | numeric op => exact .of_pure .numeric fun | .numeric => ⟨rfl, rfl⟩
  | extended =>
    refine (readExtended_recognizes.map Instr.plain).congr fun i word => ⟨?_, ?_⟩
    · intro behind
      cases behind with
      | extended h h' => exact ⟨_, rfl, _, _, _, h, h', rfl⟩
    · rintro ⟨_, rfl, _, _, _, h, h', rfl⟩
      exact .extended h h'

/-- The reader of instructions takes just their spellings. -/
theorem read_recognizes : read.Recognizes Instr.Spelled := by
  refine ((immediate_recognizes byte_recognizes).bind (M := fun b i word => ∃ op : Opcode, op.code? = some b ∧ op.Behind i word)
    fun b => ?_).congr fun i word => ⟨?_, ?_⟩
  · cases found : Opcode.ofByte? b with
    | none =>
      refine .fails (fun _ _ _ _ done => by cases done) fun _ _ ⟨op, code, _⟩ => ?_
      rw [Opcode.ofByte?_eq_some.mpr code] at found
      cases found
    | some op =>
      refine (readRest_recognizes op).congr fun i word => ⟨?_, fun behind => ⟨op, Opcode.ofByte?_eq_some.mp found, behind⟩⟩
      rintro ⟨other, code, behind⟩
      obtain rfl : op = other := Option.some.inj (found.symm.trans (Opcode.ofByte?_eq_some.mpr code))
      exact behind
  · rintro ⟨code, behind⟩
    exact ⟨_, [_], _, rfl, ⟨_, code, behind⟩, rfl⟩
  · rintro ⟨b, _, _, rfl, ⟨op, code, behind⟩, rfl⟩
    exact .mk code behind

end Instr

/-! ### Code -/

/-- The spellings of code that starts at a position: each instruction in its turn, and a construct around what is in it. -/
inductive Code.Spelled : Nat → Spelling Code
  | done {pos} : Spelled pos .done []
  | simple {pos i rest u v} : i.instr.Spelled u → Spelled (pos + u.length) rest v → Spelled pos (.simple i rest) (u ++ v)
  | block {pos type inner stop rest u v w} : (Instr.block type).Spelled u → Spelled (pos + u.length) inner v →
    stop = pos + u.length + v.length → Spelled (stop + 1) rest w →
    Spelled pos (.block pos stop type inner rest) (u ++ (v ++ 0x0B :: w))
  | loop {pos type inner stop rest u v w} : (Instr.loop type).Spelled u → Spelled (pos + u.length) inner v →
    stop = pos + u.length + v.length → Spelled (stop + 1) rest w →
    Spelled pos (.loop pos stop type inner rest) (u ++ (v ++ 0x0B :: w))
  | ifThen {pos type first stop rest u v w} : (Instr.ifThen type).Spelled u → Spelled (pos + u.length) first v →
    stop = pos + u.length + v.length → Spelled (stop + 1) rest w →
    Spelled pos (.ifThen pos none stop type first .done rest) (u ++ (v ++ 0x0B :: w))
  | ifElse {pos type first other second stop rest u v v' w} : (Instr.ifThen type).Spelled u →
    Spelled (pos + u.length) first v → other = pos + u.length + v.length → Spelled (other + 1) second v' →
    stop = other + 1 + v'.length → Spelled (stop + 1) rest w →
    Spelled pos (.ifThen pos (some other) stop type first second rest) (u ++ (v ++ 0x05 :: (v' ++ 0x0B :: w)))

section
variable {body : ByteArray} {pos last : Nat} {code : Code}

theorem Instr.spelled_elseMark {word : List UInt8} : Instr.elseMark.Spelled word ↔ word = [0x05] := by
  constructor
  · rintro ⟨known, ⟨⟩⟩
    cases known
    rfl
  · rintro rfl
    exact .mk rfl .elseMark

theorem Instr.spelled_endMark {word : List UInt8} : Instr.endMark.Spelled word ↔ word = [0x0B] := by
  constructor
  · rintro ⟨known, ⟨⟩⟩
    cases known
    rfl
  · rintro rfl
    exact .mk rfl .endMark

theorem Instr.elseMark_occurs {next : Nat} (read : Instr.read body pos = .ok .elseMark next) (inside : pos ≤ body.size) :
    Occurs [0x05] body pos ∧ next = pos + 1 := by
  obtain ⟨word, spelled, occurs, rfl⟩ := read_recognizes.sound read inside
  obtain rfl := spelled_elseMark.mp spelled
  exact ⟨occurs, rfl⟩

theorem Instr.endMark_occurs {next : Nat} (read : Instr.read body pos = .ok .endMark next) (inside : pos ≤ body.size) :
    Occurs [0x0B] body pos ∧ next = pos + 1 := by
  obtain ⟨word, spelled, occurs, rfl⟩ := read_recognizes.sound read inside
  obtain rfl := spelled_endMark.mp spelled
  exact ⟨occurs, rfl⟩

theorem Laid.spelled (h : Laid body pos code last) (inside : pos ≤ body.size) :
    ∃ word, code.Spelled pos word ∧ Occurs word body pos ∧ last = pos + word.length := by
  induction h with
  | done => exact ⟨[], .done, .nil inside, rfl⟩
  | simple read _ ih =>
    obtain ⟨u, first, here, rfl⟩ := Instr.read_recognizes.sound read inside
    obtain ⟨v, others, there, rfl⟩ := ih here.bound
    exact ⟨u ++ v, .simple first others, Occurs.append.mpr ⟨here, there⟩, by rw [List.length_append, Nat.add_assoc]⟩
  | block opened _ closed _ ih₁ ih₂ =>
    obtain ⟨u, first, here, rfl⟩ := Instr.read_recognizes.sound opened inside
    obtain ⟨v, inner, within, rfl⟩ := ih₁ here.bound
    -- A mark has no immediates, so that what follows begins one byte behind it.
    obtain ⟨mark, rfl⟩ := Instr.endMark_occurs closed within.bound
    obtain ⟨w, others, there, rfl⟩ := ih₂ mark.bound
    refine ⟨_, .block first inner rfl others, Occurs.append.mpr ⟨here, Occurs.mark.mpr ⟨within, mark, there⟩⟩, ?_⟩
    simp only [List.length_append, List.length_cons]
    omega
  | loop opened _ closed _ ih₁ ih₂ =>
    obtain ⟨u, first, here, rfl⟩ := Instr.read_recognizes.sound opened inside
    obtain ⟨v, inner, within, rfl⟩ := ih₁ here.bound
    obtain ⟨mark, rfl⟩ := Instr.endMark_occurs closed within.bound
    obtain ⟨w, others, there, rfl⟩ := ih₂ mark.bound
    refine ⟨_, .loop first inner rfl others, Occurs.append.mpr ⟨here, Occurs.mark.mpr ⟨within, mark, there⟩⟩, ?_⟩
    simp only [List.length_append, List.length_cons]
    omega
  | ifThen opened _ closed _ ih₁ ih₂ =>
    obtain ⟨u, first, here, rfl⟩ := Instr.read_recognizes.sound opened inside
    obtain ⟨v, inner, within, rfl⟩ := ih₁ here.bound
    obtain ⟨mark, rfl⟩ := Instr.endMark_occurs closed within.bound
    obtain ⟨w, others, there, rfl⟩ := ih₂ mark.bound
    refine ⟨_, .ifThen first inner rfl others, Occurs.append.mpr ⟨here, Occurs.mark.mpr ⟨within, mark, there⟩⟩, ?_⟩
    simp only [List.length_append, List.length_cons]
    omega
  | ifElse opened _ between _ closed _ ih₁ ih₂ ih₃ =>
    obtain ⟨u, first, here, rfl⟩ := Instr.read_recognizes.sound opened inside
    obtain ⟨v, arm, within, rfl⟩ := ih₁ here.bound
    obtain ⟨middle, rfl⟩ := Instr.elseMark_occurs between within.bound
    obtain ⟨v', other, behind, rfl⟩ := ih₂ middle.bound
    obtain ⟨mark, rfl⟩ := Instr.endMark_occurs closed behind.bound
    obtain ⟨w, others, there, rfl⟩ := ih₃ mark.bound
    have rest := Occurs.mark.mpr ⟨within, middle, Occurs.mark.mpr ⟨behind, mark, there⟩⟩
    refine ⟨_, .ifElse first arm rfl other rfl others, Occurs.append.mpr ⟨here, rest⟩, ?_⟩
    simp only [List.length_append, List.length_cons]
    omega

theorem Code.Spelled.laid {word : List UInt8} (h : code.Spelled pos word) (small : body.size < addressLimit)
    (occurs : Occurs word body pos) (ending : last = pos + word.length) : Laid body pos code last := by
  have reads : ∀ {i pos u}, i.Spelled u → Occurs u body pos → Instr.read body pos = .ok i (pos + u.length) :=
    Instr.read_recognizes.complete small
  have closes : ∀ {pos}, Occurs [0x0B] body pos → Instr.read body pos = .ok .endMark (pos + 1) :=
    reads (Instr.spelled_endMark.mpr rfl)
  induction h generalizing last with
  | done =>
    subst ending
    exact .done
  | simple first _ ih =>
    obtain ⟨here, there⟩ := Occurs.append.mp occurs
    refine .simple (reads first here) (ih there ?_)
    rw [ending, List.length_append, Nat.add_assoc]
  | @block pos type inner stop rest u v w opened _ at_ _ ih₁ ih₂ =>
    -- The positions in the tree are those at which the words inside end.
    subst at_
    obtain ⟨here, occurs⟩ := Occurs.append.mp occurs
    obtain ⟨within, mark, there⟩ := Occurs.mark.mp occurs
    refine .block (reads opened here) (ih₁ within rfl) (closes mark) (ih₂ there ?_)
    simp only [List.length_append, List.length_cons] at ending
    omega
  | @loop pos type inner stop rest u v w opened _ at_ _ ih₁ ih₂ =>
    subst at_
    obtain ⟨here, occurs⟩ := Occurs.append.mp occurs
    obtain ⟨within, mark, there⟩ := Occurs.mark.mp occurs
    refine .loop (reads opened here) (ih₁ within rfl) (closes mark) (ih₂ there ?_)
    simp only [List.length_append, List.length_cons] at ending
    omega
  | @ifThen pos type first stop rest u v w opened _ at_ _ ih₁ ih₂ =>
    subst at_
    obtain ⟨here, occurs⟩ := Occurs.append.mp occurs
    obtain ⟨within, mark, there⟩ := Occurs.mark.mp occurs
    refine .ifThen (reads opened here) (ih₁ within rfl) (closes mark) (ih₂ there ?_)
    simp only [List.length_append, List.length_cons] at ending
    omega
  | @ifElse pos type first other second stop rest u v v' w opened _ at_ _ at' _ ih₁ ih₂ ih₃ =>
    subst at_ at'
    obtain ⟨here, occurs⟩ := Occurs.append.mp occurs
    obtain ⟨within, middle, occurs⟩ := Occurs.mark.mp occurs
    obtain ⟨behind, mark, there⟩ := Occurs.mark.mp occurs
    have turns := reads (Instr.spelled_elseMark.mpr rfl) middle
    refine .ifElse (reads opened here) (ih₁ within rfl) turns (ih₂ behind rfl) (closes mark) (ih₃ there ?_)
    simp only [List.length_append, List.length_cons] at ending
    omega

/-- Bytes are laid out as code if and only if they spell it. -/
theorem laid_iff_spelled (small : body.size < addressLimit) (inside : pos ≤ body.size) : Laid body pos code last ↔
    ∃ word, code.Spelled pos word ∧ Occurs word body pos ∧ last = pos + word.length := by
  constructor
  · exact fun h => h.spelled inside
  · rintro ⟨word, spelled, occurs, ending⟩
    exact spelled.laid small occurs ending

/-- A body is whole if and only if its bytes spell code and then the end of the function, and nothing stands behind it. -/
theorem whole_iff_spelled (small : body.size < addressLimit) :
    Whole body code ↔ ∃ word, code.Spelled 0 word ∧ body = (word ++ [0x0B]).toByteArray := by
  constructor
  · rintro ⟨stop, laid, read⟩
    obtain ⟨word, spelled, occurs, rfl⟩ := laid.spelled (Nat.zero_le _)
    obtain ⟨mark, size⟩ := Instr.endMark_occurs read occurs.bound
    refine ⟨word, spelled, (Occurs.append.mpr ⟨occurs, mark⟩).eq_of_size ?_⟩
    rw [List.length_append, List.length_singleton, size, Nat.zero_add]
  · rintro ⟨word, spelled, rfl⟩
    have occurs : Occurs (word ++ [0x0B]) (word ++ [0x0B]).toByteArray 0 := ⟨[], [], by simp, rfl⟩
    obtain ⟨here, mark⟩ := Occurs.append.mp occurs
    refine ⟨_, spelled.laid small here rfl, ?_⟩
    have read := Instr.read_recognizes.complete small (Instr.spelled_endMark.mpr rfl) mark
    rwa [List.length_singleton, show 0 + word.length + 1 = (word ++ [0x0B]).toByteArray.size by simp] at read

end

end Wasm
