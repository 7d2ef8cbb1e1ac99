import Wasm.Proofs.Leb128
import Wasm.Binary.Writer
import Wasm.Module.Failure

/-! Spellings of the types and records of a module, and that the readers take just these. A number in them may be spelled
    in any way that its reader takes. -/

namespace Wasm
open Leb128

/-! ### Counts, vectors and names -/

namespace Spelling
variable {α : Type}

/-- The numbers that count and index. -/
abbrev u32 : Spelling Nat := SpelledUnsigned 32

/-- Small numbers may be spelled by one byte. -/
theorem u32_single {n : Nat} {b : UInt8} (value : payload b = n) (last : continues b = false) : u32 n [b] where
  groups := value ▸ .last last
  inTime := show 1 ≤ maxBytes 32 by decide
  fits := by
    have : payload b < 128 := Nat.mod_lt _ (by decide)
    omega

/-- A vector: its length, then its items. -/
inductive Vector (L : Spelling α) : Spelling (List α)
  | mk {as u v} : u32 as.length u → L.Items as v → Vector L as (u ++ v)

theorem Vector.mem {L : Spelling α} {as : List α} {word : List UInt8} (h : L.Vector as word) {a : α} (ha : a ∈ as) :
    ∃ u, L a u := by
  obtain ⟨-, items⟩ := h
  exact items.mem ha

/-- Counted bytes. -/
inductive Counted : Spelling ByteArray
  | mk {part u} : u32 part.size u → Counted part (u ++ part.data.toList)

/-- A name: the bytes of its text, counted. -/
def name : Spelling String := fun s word => Counted s.toUTF8 word

end Spelling

namespace Reader
open Spelling
variable {α : Type} {item : Reader α} {L : Spelling α}

theorem u32_recognizes : Reader.u32.Recognizes Spelling.u32 := unsigned_recognizes (by decide)

theorem count_eq_ok {data : ByteArray} {pos next n : Nat} :
    count data pos = .ok n next ↔ Reader.u32 data pos = .ok n next ∧ n ≤ data.size - next := by
  unfold count
  simp only [Decoder.bind_ok_iff]
  constructor
  · rintro ⟨_, _, first, m, mid, number, left, _, rest, h⟩
    cases first
    cases rest
    split at h
    · cases h
    · cases h
      exact ⟨number, by omega⟩
  · rintro ⟨number, enough⟩
    refine ⟨_, _, rfl, n, next, number, _, _, rfl, ?_⟩
    rw [if_neg (by omega)]
    rfl

/-- The length of a vector is compared with what remains before its items are read. As each item takes a byte at least,
    no vector is refused for that. -/
theorem vector_recognizes (h : item.Recognizes L) (proper : ∀ a, ¬L a []) :
    (vector item).Recognizes fun as word => L.Vector as.toList word where
  sound done inside := by
    obtain ⟨n, mid, counted, read⟩ := Decoder.bind_ok_iff.mp done
    obtain ⟨u, hu, here, rfl⟩ := u32_recognizes.sound (count_eq_ok.mp counted).1 inside
    obtain ⟨v, ⟨as, rfl, rfl, hv⟩, there, rfl⟩ := (items_recognizes h n #[]).sound read here.bound
    exact ⟨u ++ v, .mk (by simpa using hu) (by simpa using hv), Occurs.append.mpr ⟨here, there⟩,
      by rw [List.length_append, Nat.add_assoc]⟩
  complete := by
    rintro data pos as _ small ⟨hu, hv⟩ occurs
    obtain ⟨here, there⟩ := Occurs.append.mp occurs
    rw [List.length_append, ← Nat.add_assoc]
    refine Decoder.bind_ok_iff.mpr ⟨as.toList.length, _, count_eq_ok.mpr ⟨u32_recognizes.complete small hu here, ?_⟩, ?_⟩
    · have := hv.length_le proper
      have := there.bound
      omega
    · exact (items_recognizes h _ #[]).complete small ⟨_, rfl, by simp, hv⟩ there

theorem countedBytes_recognizes : countedBytes.Recognizes Counted :=
  (u32_recognizes.bind bytes_recognizes).congr fun part word => by
    constructor
    · rintro ⟨count⟩
      exact ⟨_, _, _, count, ⟨by simp, (toByteArray_toList part).symm⟩, rfl⟩
    · rintro ⟨n, u, v, count, ⟨rfl, rfl⟩, rfl⟩
      simpa using (Counted.mk (by simpa using count) : Counted v.toByteArray _)

theorem fromUTF8?_eq_some {part : ByteArray} {s : String} : String.fromUTF8? part = some s ↔ s.toUTF8 = part := by
  unfold String.fromUTF8?
  constructor
  · intro h
    split at h <;> cases h
    rfl
  · rintro rfl
    rw [String.toUTF8_eq_toByteArray, dif_pos s.isValidUTF8]
    rfl

theorem name_recognizes : Reader.name.Recognizes Spelling.name := by
  refine .position fun first => (countedBytes_recognizes.bind (M := fun part s word => s.toUTF8 = part ∧ word = [])
    fun part => ?_).congr fun s word => ?_
  · cases valid : String.fromUTF8? part with
    | some s =>
      refine (Decoder.Recognizes.pure s).congr fun t word => and_congr_left fun _ => ?_
      rw [← fromUTF8?_eq_some, valid, Option.some.injEq]
    | none =>
      refine .fails (fun _ _ _ _ done => by cases done) fun s _ spelled => ?_
      rw [fromUTF8?_eq_some.mpr spelled.1] at valid
      cases valid
  constructor
  · intro counted
    exact ⟨_, word, [], counted, ⟨rfl, rfl⟩, by simp⟩
  · rintro ⟨_, u, _, counted, ⟨rfl, rfl⟩, rfl⟩
    rwa [List.append_nil]

end Reader

/-! ### Types -/

/-- The spelling of a value type is its tag. -/
def ValType.Spelled : Spelling ValType := fun t word => word = [t.tag]

inductive Limits.Spelled : Spelling Limits
  | least {n u} : Spelling.u32 n u → Spelled ⟨n, none⟩ (0x00 :: u)
  | both {n m u v} : Spelling.u32 n u → Spelling.u32 m v → n ≤ m → Spelled ⟨n, some m⟩ (0x01 :: (u ++ v))

inductive FuncType.Spelled : Spelling FuncType
  | mk {params results u v} : Spelling.Vector ValType.Spelled params u → Spelling.Vector ValType.Spelled results v →
    Spelled ⟨params, results⟩ (0x60 :: (u ++ v))

/-- Whether a global may be written. -/
inductive Spelling.Mutability : Spelling Bool
  | constant : Mutability false [0x00]
  | writable : Mutability true [0x01]

/-- A table type, of which nothing is kept. -/
inductive Spelling.TableType : Spelling Unit
  | mk {b limits u} : b = 0x70 ∨ b = 0x6F → Limits.Spelled limits u → TableType () (b :: u)

namespace Reader

theorem valType_recognizes : valType.Recognizes ValType.Spelled := by
  refine .position fun first => .byte nofun fun b => ?_
  cases tag : ValType.ofTag? b with
  | some t =>
    obtain rfl := ValType.ofTag?_eq_some.mp tag
    refine (Decoder.Recognizes.pure t).congr fun t' word => ?_
    constructor
    · intro spelled
      obtain ⟨same, rfl⟩ := List.cons.inj spelled
      rw [same, ValType.ofTag?_tag] at tag
      exact ⟨(Option.some.inj tag).symm, rfl⟩
    · rintro ⟨rfl, rfl⟩
      rfl
  | none =>
    refine .reject fun t word spelled => ?_
    obtain ⟨rfl, -⟩ := List.cons.inj spelled
    rw [ValType.ofTag?_tag] at tag
    cases tag

theorem limits_recognizes : limits.Recognizes Limits.Spelled := by
  refine .position fun first => .byte nofun fun b => ?_
  split
  · rename_i zero
    obtain rfl : b = 0 := UInt8.toNat_inj.mp zero
    refine (u32_recognizes.map fun n => (⟨n, none⟩ : Limits)).congr fun limits word => ?_
    constructor
    · rintro ⟨number⟩
      exact ⟨_, rfl, number⟩
    · rintro ⟨n, rfl, number⟩
      exact .least number
  · rename_i one
    obtain rfl : b = 1 := UInt8.toNat_inj.mp one
    refine (u32_recognizes.bind fun n => u32_recognizes.bind fun m => .guard (⟨n, some m⟩ : Limits)).congr
      fun limits word => ?_
    constructor
    · intro spelled
      cases spelled with
      | both least most order => exact ⟨_, _, _, least, ⟨_, _, [], most, ⟨by omega, rfl, rfl⟩, by simp⟩, rfl⟩
    · rintro ⟨n, u, _, least, ⟨m, v, _, most, ⟨order, rfl, rfl⟩, rfl⟩, rfl⟩
      rw [List.append_nil]
      exact .both least most (by omega)
  · rename_i zero one
    refine .reject fun limits word spelled => ?_
    cases spelled with
    | least => exact zero rfl
    | both => exact one rfl

theorem funcType_recognizes : funcType.Recognizes FuncType.Spelled := by
  refine .position fun first => .byte nofun fun b => ?_
  have types := vector_recognizes valType_recognizes fun _ => nofun
  split
  · rename_i other
    exact .reject fun t word spelled => by cases spelled; exact other rfl
  · rename_i form
    obtain rfl : b = 0x60 := Decidable.not_not.mp form
    refine (types.bind fun params => types.map fun results => (⟨params.toList, results.toList⟩ : FuncType)).congr
      fun t word => ?_
    constructor
    · rintro ⟨params, results⟩
      exact ⟨_, _, _, by simpa using params, ⟨_, rfl, by simpa using results⟩, rfl⟩
    · rintro ⟨_, u, v, params, ⟨_, rfl, results⟩, rfl⟩
      exact .mk params results

theorem mutability_recognizes : mutability.Recognizes Spelling.Mutability := by
  refine .position fun first => .byte nofun fun b => ?_
  split
  · rename_i zero
    obtain rfl : b = 0 := UInt8.toNat_inj.mp zero
    refine (Decoder.Recognizes.pure false).congr fun m word => ⟨?_, ?_⟩
    · rintro ⟨⟩
      exact ⟨rfl, rfl⟩
    · rintro ⟨rfl, rfl⟩
      exact .constant
  · rename_i one
    obtain rfl : b = 1 := UInt8.toNat_inj.mp one
    refine (Decoder.Recognizes.pure true).congr fun m word => ⟨?_, ?_⟩
    · rintro ⟨⟩
      exact ⟨rfl, rfl⟩
    · rintro ⟨rfl, rfl⟩
      exact .writable
  · rename_i zero one
    refine .reject fun m word spelled => ?_
    cases spelled with
    | constant => exact zero rfl
    | writable => exact one rfl

theorem tableType_recognizes : tableType.Recognizes Spelling.TableType := by
  refine .position fun first => .byte nofun fun b => ?_
  split
  · rename_i form
    refine (limits_recognizes.map fun _ => ()).congr fun _ word => ⟨?_, ?_⟩
    · rintro ⟨-, limits⟩
      exact ⟨_, rfl, limits⟩
    · rintro ⟨_, -, limits⟩
      exact .mk form limits
  · rename_i other
    refine .reject fun _ word spelled => ?_
    cases spelled with
    | mk form => exact other form

end Reader

/-! ### Initializers -/

theorem Reader.littleEndian_cons (b : UInt8) (word : List UInt8) :
    littleEndian (b :: word).toByteArray = b.toNat + 256 * littleEndian word.toByteArray := by
  simp [littleEndian]

/-- The digits of a number, least significant first, give the number as far as they go. -/
theorem Reader.littleEndian_mod (n k : Nat) : littleEndian (Writer.littleEndian n k).toByteArray = k % 256 ^ n := by
  induction n generalizing k with
  | zero => exact (Nat.mod_one k).symm
  | succ n ih =>
    have parts : k % 256 ^ (n + 1) = k % 256 + 256 * (k / 256 % 256 ^ n) := by rw [Nat.pow_succ', Nat.mod_mul]
    rw [Writer.littleEndian, littleEndian_cons, ih, Nat.toUInt8_eq, UInt8.toNat_ofNat', parts]

theorem Reader.littleEndian_digits (n k : Nat) (h : k < 256 ^ n) :
    littleEndian (Writer.littleEndian n k).toByteArray = k := by
  rw [littleEndian_mod, Nat.mod_eq_of_lt h]

namespace Writer

theorem length_littleEndian : ∀ n k, (littleEndian n k).length = n
  | 0, _ => rfl
  | n + 1, k => by rw [littleEndian, List.length_cons, length_littleEndian]

/-- Bytes are the digits of the number they give. -/
theorem digits_littleEndian : ∀ word : List UInt8,
    littleEndian word.length (Reader.littleEndian word.toByteArray) = word
  | [] => rfl
  | b :: word => by
    have := b.toNat_lt
    rw [Reader.littleEndian_cons, List.length_cons, littleEndian]
    congr 1
    · apply UInt8.toNat_inj.mp
      simp
    · rw [show (b.toNat + 256 * Reader.littleEndian word.toByteArray) / 256 = Reader.littleEndian word.toByteArray by omega]
      exact digits_littleEndian word

end Writer

theorem Reader.littleEndian_lt : ∀ word : List UInt8, littleEndian word.toByteArray < 256 ^ word.length
  | [] => Nat.one_pos
  | b :: word => by
    have := b.toNat_lt
    have := littleEndian_lt word
    rw [littleEndian_cons, List.length_cons, Nat.pow_succ]
    omega

/-- The instruction of an initializer. -/
inductive ConstExpr.SpelledInstr : Spelling ConstExpr
  | i32 {v : BitVec 32} {u} : SpelledSigned 32 v.toInt u → SpelledInstr (.value (.i32 v)) (0x41 :: u)
  | i64 {v : BitVec 64} {u} : SpelledSigned 64 v.toInt u → SpelledInstr (.value (.i64 v)) (0x42 :: u)
  | f32 {v : BitVec 32} : SpelledInstr (.value (.f32 v)) (0x43 :: Writer.littleEndian 4 v.toNat)
  | f64 {v : BitVec 64} : SpelledInstr (.value (.f64 v)) (0x44 :: Writer.littleEndian 8 v.toNat)
  | globalGet {n u} : Spelling.u32 n u → SpelledInstr (.globalGet n) (0x23 :: u)

/-- One instruction and the end mark. -/
inductive ConstExpr.Spelled : Spelling ConstExpr
  | mk {e u} : SpelledInstr e u → Spelled e (u ++ [0x0B])

namespace Reader

theorem fixed_recognizes (n : Nat) : (fixed n).Recognizes fun k word => k < 256 ^ n ∧ word = Writer.littleEndian n k :=
  ((bytes_recognizes n).map littleEndian).congr fun k word => by
    constructor
    · rintro ⟨fits, rfl⟩
      exact ⟨_, littleEndian_digits n k fits, Writer.length_littleEndian n k, rfl⟩
    · rintro ⟨_, rfl, rfl, rfl⟩
      exact ⟨littleEndian_lt word, (Writer.digits_littleEndian word).symm⟩

/-- The integers of a number of bits, as bits. -/
theorem signed_ofInt_recognizes {bits : Nat} (some : 0 < bits) {α : Type} (f : BitVec bits → α) :
    (do return f (.ofInt bits (← signed bits)) : Reader α).Recognizes
      fun a word => ∃ v, f v = a ∧ SpelledSigned bits v.toInt word :=
  ((signed_recognizes bits).map fun n => f (.ofInt bits n)).congr fun a word => by
    constructor
    · rintro ⟨v, rfl, number⟩
      exact ⟨_, by rw [BitVec.ofInt_toInt], number⟩
    · rintro ⟨n, rfl, number⟩
      exact ⟨_, rfl, by rwa [BitVec.toInt_ofInt_eq_self some number.least number.fits]⟩

theorem initializer_recognizes : initializer.Recognizes ConstExpr.SpelledInstr := by
  refine .position fun first => .byte nofun fun b => ?_
  split
  · rename_i op
    obtain rfl : b = 0x41 := UInt8.toNat_inj.mp op
    refine (signed_ofInt_recognizes (by decide) fun v => ConstExpr.value (.i32 v)).congr fun e word => ⟨?_, ?_⟩
    · intro spelled
      cases spelled with
      | i32 number => exact ⟨_, rfl, number⟩
    · rintro ⟨v, rfl, number⟩
      exact .i32 number
  · rename_i op
    obtain rfl : b = 0x42 := UInt8.toNat_inj.mp op
    refine (signed_ofInt_recognizes (by decide) fun v => ConstExpr.value (.i64 v)).congr fun e word => ⟨?_, ?_⟩
    · intro spelled
      cases spelled with
      | i64 number => exact ⟨_, rfl, number⟩
    · rintro ⟨v, rfl, number⟩
      exact .i64 number
  · rename_i op
    obtain rfl : b = 0x43 := UInt8.toNat_inj.mp op
    refine ((fixed_recognizes 4).map fun n => ConstExpr.value (.ofNat .f32 n)).congr fun e word => ⟨?_, ?_⟩
    · rintro ⟨⟩
      exact ⟨_, by simp [Value.ofNat], BitVec.isLt _, rfl⟩
    · rintro ⟨n, rfl, fits, rfl⟩
      have := ConstExpr.SpelledInstr.f32 (v := .ofNat 32 n)
      rwa [BitVec.toNat_ofNat, Nat.mod_eq_of_lt (by exact fits)] at this
  · rename_i op
    obtain rfl : b = 0x44 := UInt8.toNat_inj.mp op
    refine ((fixed_recognizes 8).map fun n => ConstExpr.value (.ofNat .f64 n)).congr fun e word => ⟨?_, ?_⟩
    · rintro ⟨⟩
      exact ⟨_, by simp [Value.ofNat], BitVec.isLt _, rfl⟩
    · rintro ⟨n, rfl, fits, rfl⟩
      have := ConstExpr.SpelledInstr.f64 (v := .ofNat 64 n)
      rwa [BitVec.toNat_ofNat, Nat.mod_eq_of_lt (by exact fits)] at this
  · rename_i op
    obtain rfl : b = 0x23 := UInt8.toNat_inj.mp op
    refine (u32_recognizes.map ConstExpr.globalGet).congr fun e word => ⟨?_, ?_⟩
    · intro spelled
      cases spelled with
      | globalGet number => exact ⟨_, rfl, number⟩
    · rintro ⟨n, rfl, number⟩
      exact .globalGet number
  · rename_i i32 i64 f32 f64 globalGet
    -- No other byte begins a constant.
    refine .reject fun e word spelled => ?_
    cases spelled with
    | i32 => exact i32 rfl
    | i64 => exact i64 rfl
    | f32 => exact f32 rfl
    | f64 => exact f64 rfl
    | globalGet => exact globalGet rfl

theorem constExpr_recognizes : constExpr.Recognizes ConstExpr.Spelled := by
  refine (initializer_recognizes.bind (M := fun e e' word => e = e' ∧ word = [0x0B]) fun e => .position fun last =>
    .byte (by rintro _ ⟨-, ⟨⟩⟩) fun b => ?_).congr fun e word => ⟨?_, ?_⟩
  · refine (Decoder.Recognizes.guard e).congr fun e' word => ?_
    simp only [List.cons.injEq, ne_eq, not_not]
    tauto
  · rintro ⟨instr⟩
    exact ⟨_, _, _, instr, ⟨rfl, rfl⟩, rfl⟩
  · rintro ⟨_, u, _, instr, ⟨rfl, rfl⟩, rfl⟩
    exact .mk instr

end Reader

/-! ### Entries of sections -/

inductive ImportKind.Spelled : Spelling ImportKind
  | func {n u} : Spelling.u32 n u → Spelled (.func n) (0x00 :: u)
  | table {u} : Spelling.TableType () u → Spelled .table (0x01 :: u)
  | memory {limits u} : Limits.Spelled limits u → Spelled (.memory limits) (0x02 :: u)
  | global {t isMutable u v} : ValType.Spelled t u → Spelling.Mutability isMutable v →
    Spelled (.global t isMutable) (0x03 :: (u ++ v))

inductive ImportEntry.Spelled : Spelling ImportEntry
  | mk {moduleName field kind u v w} : Spelling.name moduleName u → Spelling.name field v → ImportKind.Spelled kind w →
    Spelled ⟨moduleName, field, kind⟩ (u ++ (v ++ w))

inductive GlobalEntry.Spelled : Spelling GlobalEntry
  | mk {t isMutable e u v w} : ValType.Spelled t u → Spelling.Mutability isMutable v → ConstExpr.Spelled e w →
    Spelled ⟨t, isMutable, e⟩ (u ++ (v ++ w))

inductive ExportEntry.Spelled : Spelling ExportEntry
  | mk {field kind n u v} : Spelling.name field u → Spelling.u32 n v →
    Spelled ⟨field, kind, n⟩ (u ++ kind.tag.toUInt8 :: v)

/-- A number of locals of one type. -/
inductive Spelling.LocalGroup : Spelling (Nat × ValType)
  | mk {n t u v} : u32 n u → ValType.Spelled t v → LocalGroup (n, t) (u ++ v)

/-- The locals of some groups, one by one. -/
def expandLocals (groups : List (Nat × ValType)) : List ValType := groups.flatMap fun g => List.replicate g.1 g.2

/-- The contents of an entry of the code section: groups of locals, however they are grouped, and instructions. -/
inductive CodeEntry.SpelledBody : Spelling CodeEntry
  | mk {groups u} {body : ByteArray} : Spelling.Vector Spelling.LocalGroup groups u →
    (expandLocals groups).length ≤ maxLocals → SpelledBody ⟨expandLocals groups, body⟩ (u ++ body.data.toList)

/-- The contents, with their size before them. -/
inductive CodeEntry.Spelled : Spelling CodeEntry
  | mk {entry u v} : Spelling.u32 v.length u → SpelledBody entry v → Spelled entry (u ++ v)

/-- An active segment for the first memory can be spelled in two ways. -/
inductive DataMode.Spelled : Spelling DataMode
  | first {e u v} : Spelling.u32 0 u → ConstExpr.Spelled e v → Spelled (.active 0 e) (u ++ v)
  | passive {u} : Spelling.u32 1 u → Spelled .passive u
  | active {n e u v w} : Spelling.u32 2 u → Spelling.u32 n v → ConstExpr.Spelled e w → Spelled (.active n e) (u ++ (v ++ w))

inductive DataEntry.Spelled : Spelling DataEntry
  | mk {mode part u v} : DataMode.Spelled mode u → Spelling.Counted part v → Spelled ⟨mode, part⟩ (u ++ v)

namespace Reader

theorem importKind_recognizes : importKind.Recognizes ImportKind.Spelled := by
  refine .position fun first => .byte nofun fun b => ?_
  split
  · rename_i tag
    obtain rfl : b = 0 := UInt8.toNat_inj.mp tag
    refine (u32_recognizes.map ImportKind.func).congr fun kind word => ⟨?_, ?_⟩
    · intro spelled
      cases spelled with
      | func number => exact ⟨_, rfl, number⟩
    · rintro ⟨n, rfl, number⟩
      exact .func number
  · rename_i tag
    obtain rfl : b = 1 := UInt8.toNat_inj.mp tag
    refine (tableType_recognizes.map fun _ => ImportKind.table).congr fun kind word => ⟨?_, ?_⟩
    · intro spelled
      cases spelled with
      | table type => exact ⟨_, rfl, type⟩
    · rintro ⟨_, rfl, type⟩
      exact .table type
  · rename_i tag
    obtain rfl : b = 2 := UInt8.toNat_inj.mp tag
    refine (limits_recognizes.map ImportKind.memory).congr fun kind word => ⟨?_, ?_⟩
    · intro spelled
      cases spelled with
      | memory limits => exact ⟨_, rfl, limits⟩
    · rintro ⟨_, rfl, limits⟩
      exact .memory limits
  · rename_i tag
    obtain rfl : b = 3 := UInt8.toNat_inj.mp tag
    refine (valType_recognizes.bind fun t => mutability_recognizes.map (ImportKind.global t)).congr
      fun kind word => ⟨?_, ?_⟩
    · intro spelled
      cases spelled with
      | global type isMutable => exact ⟨_, _, _, type, ⟨_, rfl, isMutable⟩, rfl⟩
    · rintro ⟨t, u, v, type, ⟨_, rfl, isMutable⟩, rfl⟩
      exact .global type isMutable
  · rename_i func table memory global
    -- There is no other kind.
    refine .reject fun kind word spelled => ?_
    cases spelled with
    | func => exact func rfl
    | table => exact table rfl
    | memory => exact memory rfl
    | global => exact global rfl

theorem importEntry_recognizes : importEntry.Recognizes ImportEntry.Spelled :=
  (name_recognizes.bind fun moduleName => name_recognizes.bind fun field => importKind_recognizes.map
    fun kind => (⟨moduleName, field, kind⟩ : ImportEntry)).congr fun entry word => by
    constructor
    · rintro ⟨moduleName, field, kind⟩
      exact ⟨_, _, _, moduleName, ⟨_, _, _, field, ⟨_, rfl, kind⟩, rfl⟩, rfl⟩
    · rintro ⟨_, u, _, moduleName, ⟨_, v, w, field, ⟨_, rfl, kind⟩, rfl⟩, rfl⟩
      exact .mk moduleName field kind

theorem globalEntry_recognizes : globalEntry.Recognizes GlobalEntry.Spelled :=
  (valType_recognizes.bind fun t => mutability_recognizes.bind fun isMutable => constExpr_recognizes.map
    fun e => (⟨t, isMutable, e⟩ : GlobalEntry)).congr fun entry word => by
    constructor
    · rintro ⟨type, isMutable, expr⟩
      exact ⟨_, _, _, type, ⟨_, _, _, isMutable, ⟨_, rfl, expr⟩, rfl⟩, rfl⟩
    · rintro ⟨_, u, _, type, ⟨_, v, w, isMutable, ⟨_, rfl, expr⟩, rfl⟩, rfl⟩
      exact .mk type isMutable expr

theorem exportKind_tag {b : UInt8} {kind : ExportKind} : ExportKind.ofTag? b.toNat = some kind ↔ b = kind.tag.toUInt8 := by
  constructor
  · intro tag
    apply UInt8.toNat_inj.mp
    unfold ExportKind.ofTag? at tag
    split at tag <;> cases tag <;> assumption
  · rintro rfl
    cases kind <;> rfl

theorem exportEntry_recognizes : exportEntry.Recognizes ExportEntry.Spelled := by
  refine (name_recognizes.bind (M := fun field entry word => ∃ kind n v, ExportEntry.mk field kind n = entry ∧
    Spelling.u32 n v ∧ word = kind.tag.toUInt8 :: v) fun field => .position fun first =>
    .byte (by rintro _ ⟨_, _, _, -, -, ⟨⟩⟩) fun b => ?_).congr fun entry word => ⟨?_, ?_⟩
  · cases tag : ExportKind.ofTag? b.toNat with
    | none =>
      refine .reject ?_
      rintro _ _ ⟨kind, n, v, -, -, same⟩
      rw [exportKind_tag.mpr (List.cons.inj same).1] at tag
      cases tag
    | some kind =>
      refine (u32_recognizes.map fun n => ExportEntry.mk field kind n).congr fun entry word => ⟨?_, ?_⟩
      · rintro ⟨kind', n, v, rfl, number, whole⟩
        obtain ⟨same, rfl⟩ := List.cons.inj whole
        rw [exportKind_tag.mpr same] at tag
        cases tag
        exact ⟨n, rfl, number⟩
      · rintro ⟨n, rfl, number⟩
        exact ⟨kind, n, word, rfl, number, by rw [exportKind_tag.mp tag]⟩
  · rintro ⟨field, number⟩
    exact ⟨_, _, _, field, ⟨_, _, _, rfl, number, rfl⟩, rfl⟩
  · rintro ⟨_, u, _, field, ⟨_, _, v, rfl, number, rfl⟩, rfl⟩
    exact .mk field number

theorem localGroup_recognizes : localGroup.Recognizes Spelling.LocalGroup :=
  (u32_recognizes.bind fun n => valType_recognizes.map fun t => (n, t)).congr fun group word => by
    constructor
    · rintro ⟨number, type⟩
      exact ⟨_, _, _, number, ⟨_, rfl, type⟩, rfl⟩
    · rintro ⟨_, u, v, number, ⟨_, rfl, type⟩, rfl⟩
      exact .mk number type

theorem foldl_add_expandLocals (groups : List (Nat × ValType)) (n : Nat) :
    groups.foldl (fun n g => n + g.1) n = n + (expandLocals groups).length := by
  induction groups generalizing n with
  | nil => rfl
  | cons g groups ih => simp [ih, expandLocals, Nat.add_assoc]

/-- The reader of contents goes to the end of its input. -/
theorem codeBody_sound {part : ByteArray} {entry : CodeEntry} {next : Nat} (done : codeBody part 0 = .ok entry next) :
    entry.SpelledBody part.data.toList := by
  obtain ⟨groups, mid, read, rest⟩ := Decoder.bind_ok_iff.mp done
  obtain ⟨u, spelled, here, rfl⟩ :=
    (vector_recognizes localGroup_recognizes (localGroup_recognizes.proper rfl)).sound read (Nat.zero_le _)
  rw [← Array.foldl_toList, foldl_add_expandLocals, Nat.zero_add] at rest
  split at rest
  · cases rest
  · rename_i few
    obtain ⟨_, _, left, rest⟩ := Decoder.bind_ok_iff.mp rest
    cases left
    obtain ⟨body, _, taken, rest⟩ := Decoder.bind_ok_iff.mp rest
    cases rest
    obtain ⟨-, inside, rfl, rfl⟩ := bytes_eq_ok.mp taken
    have whole := (Occurs.append.mpr ⟨here, .of_extract inside⟩).eq_of_size (by simp; omega)
    generalize part.extract _ _ = body at whole
    rw [whole, List.data_toByteArray]
    exact .mk spelled (Nat.not_lt.mp few)

theorem codeBody_complete {part : ByteArray} {entry : CodeEntry} (small : part.size < addressLimit)
    (spelled : entry.SpelledBody part.data.toList) : ∃ next, codeBody part 0 = .ok entry next := by
  generalize same : part.data.toList = word at spelled
  have whole : Occurs word part 0 := same ▸ .all part
  have size : word.length = part.size := by rw [← same, Array.length_toList, ByteArray.size_data]
  cases spelled with
  | @mk groups u body spelled few =>
    obtain ⟨here, there⟩ := Occurs.append.mp whole
    rw [List.length_append] at size
    refine ⟨0 + u.length + body.data.toList.length, Decoder.bind_ok_iff.mpr ⟨groups.toArray, _,
      (vector_recognizes localGroup_recognizes (localGroup_recognizes.proper rfl)).complete small
        (by simpa using spelled) here, ?_⟩⟩
    rw [← Array.foldl_toList, foldl_add_expandLocals, Nat.zero_add (List.length _), if_neg (Nat.not_lt.mpr few)]
    have left : part.size - (0 + u.length) = body.data.toList.length := by omega
    refine Decoder.bind_ok_iff.mpr ⟨_, _, rfl, Decoder.bind_ok_iff.mpr ⟨_, _,
      (bytes_recognizes _).complete small ⟨left.symm, rfl⟩ there, ?_⟩⟩
    rw [toByteArray_toList]
    rfl

/-- The same reader on an input of its own. -/
theorem within_recognizes {α : Type} {L : Spelling α} {inner : Reader α} (n : Nat)
    (sound : ∀ {part a next}, inner part 0 = .ok a next → L a part.data.toList)
    (complete : ∀ {part a}, part.size < addressLimit → L a part.data.toList → ∃ next, inner part 0 = .ok a next) :
    (within n inner).Recognizes fun a word => word.length = n ∧ L a word where
  sound {data pos _ _} done inside := by
    obtain ⟨_, _, here, rest⟩ := Decoder.bind_ok_iff.mp done
    cases here
    obtain ⟨part, _, taken, rest⟩ := Decoder.bind_ok_iff.mp rest
    obtain ⟨word, ⟨length, rfl⟩, occurs, rfl⟩ := (bytes_recognizes n).sound taken inside
    cases ran : inner word.toByteArray 0 with
    | ok a next =>
      rw [ran] at rest
      cases rest
      exact ⟨word, ⟨length, by simpa using sound ran⟩, occurs, rfl⟩
    | error e next =>
      rw [ran] at rest
      cases rest
  complete := by
    rintro data pos a word small ⟨rfl, spelled⟩ occurs
    have := occurs.bound
    obtain ⟨next, ran⟩ : ∃ next, inner word.toByteArray 0 = .ok a next :=
      complete (by simp; omega) (by simpa using spelled)
    refine Decoder.bind_ok_iff.mpr ⟨_, _, rfl, Decoder.bind_ok_iff.mpr ⟨_, _,
      (bytes_recognizes _).complete small ⟨rfl, rfl⟩ occurs, ?_⟩⟩
    rw [ran]
    rfl

theorem codeEntry_recognizes : codeEntry.Recognizes CodeEntry.Spelled :=
  (u32_recognizes.bind fun size => within_recognizes size codeBody_sound codeBody_complete).congr fun entry word => by
    constructor
    · rintro ⟨size, spelled⟩
      exact ⟨_, _, _, size, ⟨rfl, spelled⟩, rfl⟩
    · rintro ⟨_, u, v, size, ⟨rfl, spelled⟩, rfl⟩
      exact .mk size spelled

theorem dataMode_recognizes : dataMode.Recognizes DataMode.Spelled := by
  refine .position fun first => (u32_recognizes.bind (M := fun flags mode word =>
    (flags = 0 ∧ ∃ e, .active 0 e = mode ∧ ConstExpr.Spelled e word) ∨ (flags = 1 ∧ .passive = mode ∧ word = []) ∨
    (flags = 2 ∧ ∃ n u v e, .active n e = mode ∧ Spelling.u32 n u ∧ ConstExpr.Spelled e v ∧ word = u ++ v))
    fun flags => ?_).congr fun mode word => ⟨?_, ?_⟩
  · split
    · exact (constExpr_recognizes.map (DataMode.active 0)).congr fun mode word => by simp
    · exact (Decoder.Recognizes.pure DataMode.passive).congr fun mode word => by simp
    · refine (u32_recognizes.bind fun n => constExpr_recognizes.map (DataMode.active n)).congr fun mode word => ⟨?_, ?_⟩
      · rintro (⟨⟨⟩, -⟩ | ⟨⟨⟩, -⟩ | ⟨-, n, u, v, e, rfl, number, expr, rfl⟩)
        exact ⟨n, u, v, number, ⟨e, rfl, expr⟩, rfl⟩
      · rintro ⟨n, u, v, number, ⟨e, rfl, expr⟩, rfl⟩
        exact .inr (.inr ⟨rfl, n, u, v, e, rfl, number, expr, rfl⟩)
    · rename_i zero one two
      exact .reject fun mode word h => by tauto
  · intro spelled
    cases spelled with
    | first flags expr => exact ⟨_, _, _, flags, .inl ⟨rfl, _, rfl, expr⟩, rfl⟩
    | passive flags => exact ⟨_, _, [], flags, .inr (.inl ⟨rfl, rfl, rfl⟩), by simp⟩
    | active flags number expr => exact ⟨_, _, _, flags, .inr (.inr ⟨rfl, _, _, _, _, rfl, number, expr, rfl⟩), rfl⟩
  · rintro ⟨_, u, _, flags, ⟨rfl, e, rfl, expr⟩ | ⟨rfl, rfl, rfl⟩ | ⟨rfl, n, v, w, e, rfl, number, expr, rfl⟩, rfl⟩
    · exact .first flags expr
    · rw [List.append_nil]
      exact .passive flags
    · exact .active flags number expr

theorem dataEntry_recognizes : dataEntry.Recognizes DataEntry.Spelled :=
  (dataMode_recognizes.bind fun mode => countedBytes_recognizes.map fun part => DataEntry.mk mode part).congr
    fun entry word => by
    constructor
    · rintro ⟨mode, counted⟩
      exact ⟨_, _, _, mode, ⟨_, rfl, counted⟩, rfl⟩
    · rintro ⟨_, u, v, mode, ⟨_, rfl, counted⟩, rfl⟩
      exact .mk mode counted

end Reader
end Wasm