import Mathlib.Data.Nat.Digits.Defs
import Wasm.Proofs.Instructions
import Wasm.Proofs.IntegerArithmetic
import Wasm.Proofs.Shadow
import Wasm.Proofs.WrittenPages

/-! Loads and stores. They access memory at the sum of the address on the stack and the offset of the instruction, which
    may be past all 32-bit addresses. A load traps if its last byte is not there, and else makes its value of the bytes
    that are. After a store, a load at the same address gives back what has been stored, or what a narrow store has left
    of it. -/

namespace Wasm
open Store

/-! ### Values and bytes -/

/-- What a load makes of its bytes, the least significant first: the value with these bits, or the integer that a number
    of fewer bits stands for. -/
def LoadOp.value (op : LoadOp) (bytes : List UInt8) : Value :=
  let n := Nat.ofDigits 256 (bytes.map UInt8.toNat)
  match op with
  | full t => .ofNat t n
  | narrow w size sign => .int w (.ofInt w.bits (sign.number (8 * size.bytes) n))

/-- After a store of a value, a load gives a value at the same address. Loads of the full width give the value itself.
    Narrow ones give an integer modulo a power of two, or what that stands for with a sign. -/
inductive StoreOp.Recalls : StoreOp → Value → LoadOp → Value → Prop
  | full {t : ValType} {v : Value} : Recalls (.full t) v (.full t) v
  | unsigned {w w' : Width} {size : NarrowSize} {x : BitVec w.bits} :
    Recalls (.narrow w size) (.int w x) (.narrow w' size .unsigned)
      (.int w' (.ofNat w'.bits (x.toNat % 2 ^ (8 * size.bytes))))
  | signed {w w' : Width} {size : NarrowSize} {x : BitVec w.bits} :
    Recalls (.narrow w size) (.int w x) (.narrow w' size .signed)
      (.int w' (.ofInt w'.bits (Signedness.signed.number (8 * size.bytes) (x.toNat % 2 ^ (8 * size.bytes)))))

/-- Where a load or store goes: the address on the stack, and the offset and the alignment in the instruction. -/
structure Target where
  base : BitVec 32
  offset : BitVec 32
  align : Nat

namespace Target

/-- The address, a number of 33 bits. -/
def address (x : Target) : Nat := x.base.toNat + x.offset.toNat

def arg (x : Target) : MemArg := ⟨x.align, x.offset.toNat⟩

end Target

/-- Loads and stores on a store whose first memory is `m`. -/
structure Store.Remembers (s : Store) (m : Memory) : Prop where
  /-- Behind the byte stand the alignment and the offset, in any spelling of numbers of 32 bits. -/
  loadCode {op : LoadOp} {b : UInt8} : op.code? = some b → ∀ {body : ByteArray} {pos next : Nat} {arg : MemArg},
    Instr.read body pos = .ok (.plain (.load op arg)) next ↔
      ∃ word, arg.Spelled word ∧ Occurs (b :: word) body pos ∧ next = pos + (b :: word).length
  storeCode {op : StoreOp} {b : UInt8} : op.code? = some b → ∀ {body : ByteArray} {pos next : Nat} {arg : MemArg},
    Instr.read body pos = .ok (.plain (.store op arg)) next ↔
      ∃ word, arg.Spelled word ∧ Occurs (b :: word) body pos ∧ next = pos + (b :: word).length
  traps {f : Frame} {op : LoadOp} {x : Target} {below : Array Value} : s.stack.values = below.push (.i32 x.base) →
    ((∃ t, (Plain.load op x.arg).exec f s = .error (.outOfBounds .memory x.address) t) ↔
      m.size ≤ x.address + (op.size - 1))
  loads {f : Frame} {op : LoadOp} {x : Target} {below : Array Value} : s.stack.values = below.push (.i32 x.base) →
    x.address + (op.size - 1) < m.size → ∃ bytes : List UInt8, bytes.length = op.size ∧
      (∀ i (h : i < bytes.length), Memory.read (x.address + i) 1 m = .ok ⟨#[bytes[i]]⟩ m) ∧
      (Plain.load op x.arg).exec f s = .ok () { s with stack := ⟨below.push (op.value bytes)⟩ }
  /-- Every memory of a module consists of whole pages, and only a look through code is on a shadow. -/
  recalls {f : Frame} {op : StoreOp} {x : Target} {below : Array Value} {v : Value} {t : Store} :
    s.shadow = false → pageSize ∣ m.bytes.size → s.stack.values = (below.push (.i32 x.base)).push v →
    (Plain.store op x.arg).exec f s = .ok () t →
    ∀ {load : LoadOp} {v' : Value}, op.Recalls v load v' →
    ∀ {f' : Frame} {x' : Target} {below' : Array Value} {u : Store}, u.memories = t.memories → x'.address = x.address →
      u.stack.values = below'.push (.i32 x'.base) →
      (Plain.load load x'.arg).exec f' u = .ok () { u with stack := ⟨below'.push v'⟩ }
  shadowed {f : Frame} {op : StoreOp} {x : Target} {t : Store} : s.shadow = true →
    (Plain.store op x.arg).exec f s = .ok () t → t.memories = s.memories

/-! ### Numbers in bytes -/

theorem PageMap.number_eq_ofDigits (p : PageMap) (address n : Nat) :
    p.number address n = Nat.ofDigits 256 ((p.bytes address n).map UInt8.toNat) := by
  induction n generalizing address with
  | zero => rfl
  | succ n ih =>
    rw [bytes, number, List.map_cons, Nat.ofDigits_cons, ih]

theorem PageMap.number_lt (p : PageMap) (address n : Nat) : p.number address n < 256 ^ n := by
  have fits := Reader.littleEndian_lt (p.bytes address n)
  rwa [littleEndian_bytes, length_bytes] at fits

theorem NarrowSize.pow_bytes (size : NarrowSize) : 256 ^ size.bytes = 2 ^ (8 * size.bytes) := by
  rw [Nat.pow_mul]

theorem LoadOp.size_bounds (op : LoadOp) : 0 < op.size ∧ op.size ≤ 8 := by
  cases op with
  | full t => cases t <;> decide
  | narrow w size sign =>
    show 0 < size.bytes ∧ size.bytes ≤ 8
    cases size <;> decide

theorem Value.toNat_lt (v : Value) : v.toNat < 256 ^ v.type.size := by
  cases v <;> exact BitVec.isLt _

theorem Value.toNat_int (w : Width) (x : BitVec w.bits) : (int w x).toNat = x.toNat := by cases w <;> rfl

namespace Plain

/-- The word that is made of a narrow number is that of the integer which it stands for. -/
theorem loaded_narrow (w : Width) (size : NarrowSize) (sign : Signedness) {n : Nat} (fits : n < 2 ^ (8 * size.bytes)) :
    loaded (.narrow w size sign) n = .int w (.ofInt w.bits (sign.number (8 * size.bytes) n)) := by
  cases sign with
  | unsigned => exact congrArg (Value.int w) (BitVec.ofInt_natCast ..).symm
  | signed =>
    have positive : 0 < 8 * size.bytes := by cases size <;> decide
    have same : (BitVec.ofNat (8 * size.bytes) n).toNat = n := by rw [BitVec.toNat_ofNat, Nat.mod_eq_of_lt fits]
    have stands := number_signed positive (.ofNat (8 * size.bytes) n)
    rw [same] at stands
    rw [stands]
    rfl

theorem loaded_eq_value (op : LoadOp) (p : PageMap) (address : Nat) :
    loaded op (p.number address op.size) = op.value (p.bytes address op.size) := by
  have digits := p.number_eq_ofDigits address op.size
  cases op with
  | full t => exact congrArg (Value.ofNat t) digits
  | narrow w size sign =>
    have fits : p.number address size.bytes < 2 ^ (8 * size.bytes) := by
      rw [← size.pow_bytes]
      exact p.number_lt address size.bytes
    refine (loaded_narrow w size sign fits).trans ?_
    rw [show p.number address size.bytes = _ from digits]
    rfl

/-- A load gives back what its store has left of a value. -/
theorem loaded_of_recalls {op : StoreOp} {load : LoadOp} {v v' : Value} (recalled : op.Recalls v load v')
    (type : v.type = op.type) : load.size = op.size ∧ loaded load (v.toNat % 256 ^ op.size) = v' := by
  cases recalled with
  | @full t v =>
    obtain rfl : v.type = t := type
    refine ⟨rfl, ?_⟩
    rw [StoreOp.size, Nat.mod_eq_of_lt v.toNat_lt]
    exact v.ofNat_toNat
  | @unsigned w w' size x =>
    refine ⟨rfl, ?_⟩
    rw [StoreOp.size, size.pow_bytes, Value.toNat_int]
    rfl
  | @signed w w' size x =>
    refine ⟨rfl, ?_⟩
    rw [StoreOp.size, size.pow_bytes, Value.toNat_int]
    exact loaded_narrow w' size .signed (Nat.mod_lt _ (Nat.two_pow_pos _))

end Plain

/-! ### What is written -/

namespace Memory
variable {m : Memory}

theorem read_byte {i : Nat} (inside : i < m.bytes.size) (near : i + 1 < addressLimit) :
    read i 1 m = .ok ⟨#[m.byteAt i]⟩ m := by
  rw [read_of_near near, if_neg (by omega)]
  rfl

theorem load_of_near {address n : Nat} (near : address + n < addressLimit) (m : Memory) : load address n m =
    if m.bytes.size < address + n then .error (.outOfBounds .memory address) m
    else .ok (m.pageMap.number address n) m := by
  show EStateM.map Reader.littleEndian (read address n) m = _
  rw [EStateM.map, read_of_near near]
  by_cases beyond : m.bytes.size < address + n
  · rw [if_pos beyond, if_pos beyond]
  · rw [if_neg beyond, if_neg beyond, ← PageMap.littleEndian_bytes]

/-- The written bytes are there. -/
theorem bytes_written (whole : m.pages * pageSize = m.bytes.size) (address : Nat) (word : List UInt8) :
    (m.written address word.toByteArray).pageMap.bytes address word.length = word := by
  refine List.ext_getElem (PageMap.length_bytes ..) fun i h h' => ?_
  have within : address ≤ address + i ∧ address + i < address + word.toByteArray.size := by
    rw [List.size_toByteArray]
    omega
  rw [PageMap.getElem_bytes]
  refine (byteAt_written whole).trans ?_
  rw [if_pos within, getElem?_toByteArray, Nat.add_sub_cancel_left, List.getElem?_eq_getElem h', Option.getD_some]

theorem le_size_written (whole : m.pages * pageSize = m.bytes.size) (address : Nat) (part : ByteArray) :
    address + part.size ≤ (m.written address part).bytes.size := by
  have room := le_size_extendTo whole (address + part.size)
  rw [written, size_overwrite]
  omega

/-- What is stored is there, as far as it has been written. -/
theorem number_stored {address n value : Nat} {m' : Memory} (whole : pageSize ∣ m.bytes.size)
    (stored : store address n value m = .ok () m') :
    address + n ≤ m'.bytes.size ∧ m'.pageMap.number address n = value % 256 ^ n := by
  have whole := pages_of_dvd whole
  obtain rfl := write_eq_ok stored
  have bytes := bytes_written whole address (Writer.littleEndian n value)
  have room := le_size_written whole address (Writer.littleEndian n value).toByteArray
  rw [Writer.length_littleEndian] at bytes
  rw [List.size_toByteArray, Writer.length_littleEndian] at room
  refine ⟨room, ?_⟩
  rw [← PageMap.littleEndian_bytes, bytes, Reader.littleEndian_mod]

end Memory

/-! ### The instructions -/

/-- What starts at an address of 33 bits ends where it can be addressed. -/
theorem Target.near (x : Target) {n : Nat} (few : n ≤ 8) : x.address + n < addressLimit := by
  have base := x.base.isLt
  have offset := x.offset.isLt
  unfold address addressLimit
  omega

namespace Plain
variable {f : Frame} {s t : Store} {m : Memory} {below : Array Value} {x : Target}

theorem popTarget_top (taken : s.stack.values = below.push (.i32 x.base)) :
    popTarget x.arg s = .ok x.address { s with stack := ⟨below⟩ } :=
  bind_ok (popAddress_top taken)

theorem exec_load (op : LoadOp) (found : s.memories[0]? = some m) (taken : s.stack.values = below.push (.i32 x.base)) :
    (load op x.arg).exec f s =
      if m.bytes.size < x.address + op.size then .error (.outOfBounds .memory x.address) { s with stack := ⟨below⟩ }
      else .ok () { s with stack := ⟨below.push (loaded op (m.pageMap.number x.address op.size))⟩ } := by
  have popped : popTarget x.arg s = _ := popTarget_top taken
  have same : s.memories.setIfInBounds 0 m = s.memories := setIfInBounds_getElem? found
  have found' : ({ s with stack := ⟨below⟩ } : Store).memories[0]? = some m := found
  have looked := onMemory_eq found' (Memory.load x.address op.size)
  rw [Memory.load_of_near (x.near op.size_bounds.2)] at looked
  rw [exec, bind_ok popped]
  by_cases beyond : m.bytes.size < x.address + op.size
  · rw [if_pos beyond] at looked ⊢
    refine (bind_error looked).trans ?_
    simp only [same]
  · rw [if_neg beyond] at looked ⊢
    refine (bind_ok looked).trans ?_
    simp only [same]
    rfl

/-- A store pops a value of its type, and writes it. -/
theorem exec_store_eq_ok {op : StoreOp} {v : Value} (taken : s.stack.values = (below.push (.i32 x.base)).push v)
    (stored : (store op x.arg).exec f s = .ok () t) : v.type = op.type ∧
      writeMemory (Memory.store x.address op.size v.toNat) { s with stack := ⟨below⟩ } = .ok () t := by
  rw [exec] at stored
  obtain ⟨v', u, popped, stored⟩ := bind_eq_ok.mp stored
  obtain ⟨stack, top, rfl⟩ := onStack_eq_ok.mp popped
  obtain ⟨values, type⟩ := Stack.popType_eq_ok.mp top
  obtain ⟨rfl, rest⟩ := Array.push_eq_push.mp (taken.symm.trans values)
  have target : popTarget x.arg { s with stack } = .ok x.address { s with stack := ⟨below⟩ } := popTarget_top rest.symm
  rw [bind_ok target] at stored
  exact ⟨type, stored⟩

end Plain

/-! ### Codes -/

section
variable {body : ByteArray} {pos next : Nat} {arg : MemArg} {b : UInt8}

/-- An instruction that has an alignment and an offset behind its byte, and nothing else. -/
theorem Instr.read_of_memArg {op : Opcode} {access : MemArg → Plain} (code : op.code? = some b)
    (rest : readRest op = do return .plain (access (← immediate Reader.memArg))) {word : List UInt8}
    (spelled : arg.Spelled word) (occurs : Occurs (b :: word) body pos) :
    read body pos = .ok (.plain (access arg)) (pos + (b :: word).length) := by
  obtain ⟨first, there⟩ := Occurs.cons.mp occurs
  obtain ⟨inside, rfl⟩ := Occurs.singleton.mp first
  refine read_eq_ok.mpr ⟨inside, op, Opcode.ofByte?_eq_some.mpr code, ?_⟩
  rw [rest]
  refine Decoder.bind_ok_iff.mpr ⟨arg, _, immediate_eq_ok.mpr (Reader.memArg_eq_ok.mpr ⟨word, spelled, there, rfl⟩), ?_⟩
  rw [List.length_cons, Nat.add_comm word.length, ← Nat.add_assoc]
  rfl

theorem LoadOp.read_iff {op : LoadOp} (code : op.code? = some b) : Instr.read body pos = .ok (.plain (.load op arg)) next ↔
    ∃ word, arg.Spelled word ∧ Occurs (b :: word) body pos ∧ next = pos + (b :: word).length := by
  constructor
  · intro read
    obtain ⟨within, inside⟩ := Instr.read_bounds read
    obtain ⟨_, ⟨known, behind⟩, occurs, length⟩ := Instr.read_recognizes.sound read (by omega)
    cases behind with
    | extended _ behind => cases behind
    | load spelled =>
      obtain rfl := Option.some.inj (code.symm.trans known)
      exact ⟨_, spelled, occurs, length⟩
  · rintro ⟨word, spelled, occurs, rfl⟩
    exact Instr.read_of_memArg (show (Opcode.load op).code? = some b from code) rfl spelled occurs

theorem StoreOp.read_iff {op : StoreOp} (code : op.code? = some b) :
    Instr.read body pos = .ok (.plain (.store op arg)) next ↔
      ∃ word, arg.Spelled word ∧ Occurs (b :: word) body pos ∧ next = pos + (b :: word).length := by
  constructor
  · intro read
    obtain ⟨within, inside⟩ := Instr.read_bounds read
    obtain ⟨_, ⟨known, behind⟩, occurs, length⟩ := Instr.read_recognizes.sound read (by omega)
    cases behind with
    | extended _ behind => cases behind
    | store spelled =>
      obtain rfl := Option.some.inj (code.symm.trans known)
      exact ⟨_, spelled, occurs, length⟩
  · rintro ⟨word, spelled, occurs, rfl⟩
    exact Instr.read_of_memArg (show (Opcode.store op).code? = some b from code) rfl spelled occurs

end

/-! ### Loads after stores -/

/-- On any store with a memory, loads and stores do what is told of them. -/
theorem Store.remembers {s : Store} {m : Memory} (found : s.memories[0]? = some m) : s.Remembers m where
  loadCode code := LoadOp.read_iff code
  storeCode code := StoreOp.read_iff code
  traps {f op x below} taken := by
    obtain ⟨positive, few⟩ := op.size_bounds
    rw [Plain.exec_load op found taken]
    unfold Memory.size
    by_cases beyond : m.bytes.size < x.address + op.size
    · rw [if_pos beyond]
      exact ⟨fun _ => by omega, fun _ => ⟨_, rfl⟩⟩
    · rw [if_neg beyond]
      constructor
      · rintro ⟨t, failed⟩
        cases failed
      · intro behind
        omega
  loads {f op x below} taken inside := by
    obtain ⟨positive, few⟩ := op.size_bounds
    refine ⟨m.pageMap.bytes x.address op.size, PageMap.length_bytes .., fun i h => ?_, ?_⟩
    · rw [PageMap.getElem_bytes]
      rw [PageMap.length_bytes] at h
      -- No address with an offset comes near the end of what an index can be, so that nothing wraps.
      have near := x.near few
      unfold Memory.size at inside
      exact Memory.read_byte (by omega) (by omega)
    · unfold Memory.size at inside
      rw [Plain.exec_load op found taken, if_neg (by omega), Plain.loaded_eq_value]
  recalls {f op x below v t} live whole taken stored load v' recalled f' x' below' u memories address taken' := by
    obtain ⟨type, wrote⟩ := Plain.exec_store_eq_ok taken stored
    obtain ⟨m', there, ran⟩ := Plain.writeMemory_found wrote live found
    obtain ⟨size, value⟩ := Plain.loaded_of_recalls recalled type
    obtain ⟨room, number⟩ := Memory.number_stored whole ran
    -- Only the memory decides what is loaded. The stack and the frame may be others.
    have there' : u.memories[0]? = some m' := memories ▸ there
    rw [Plain.exec_load load there' taken', address, size, if_neg (Nat.not_lt.mpr room), number, value]
  shadowed {f op x t} shadow stored := by
    have rests := ((Plain.store op x.arg).exec_built f).isShadow.after ⟨shadow, rfl⟩
    rw [stateAfter_ok stored] at rests
    exact rests.2

namespace Recalled

/-- A memory of one page. -/
def memory : Memory := .new ⟨1, some 2⟩

/-- The last two bytes of the page and the next two. -/
def across : Target := ⟨65530, 4, 2⟩

/-- The same bytes without an offset. -/
def again : Target := ⟨65534, 0, 0⟩

/-- The highest address with an offset. -/
def beyond : Target := ⟨0xFFFFFFFF, 1, 2⟩

/-- A NaN with a payload is to be stored. -/
def storing : Store := { stack := ⟨#[.i32 across.base, .f32 0x7FA00001]⟩, memories := #[memory] }

/-- What is beyond all addresses of 32 bits is to be loaded. -/
def loading : Store := { stack := ⟨#[.i32 beyond.base]⟩, memories := #[memory] }

theorem exec_storing {m : Memory} (stored : Memory.store across.address 4 0x7FA00001 memory = .ok () m) :
    (Plain.store (.full .f32) across.arg).exec ⟨0, 0⟩ storing = .ok () { effects := 1, memories := #[m] } := by
  have value : onStack (Stack.popType .f32) storing =
    .ok (.f32 0x7FA00001) { storing with stack := ⟨#[.i32 across.base]⟩ } := rfl
  have target : Plain.popTarget across.arg { storing with stack := ⟨#[.i32 across.base]⟩ } =
    .ok across.address { storing with stack := ⟨#[]⟩ } := rfl
  have wrote : onMemory 0 (Memory.store across.address 4 0x7FA00001) { storing with stack := ⟨#[]⟩ } =
    .ok () { memories := #[m] } := onMemory_eq_ok.mpr ⟨_, m, rfl, stored, rfl⟩
  refine (bind_ok value).trans ((bind_ok target).trans ?_)
  unfold Plain.writeMemory
  rw [bind_ok (get_apply _), if_neg (by decide)]
  exact bind_ok wrote

end Recalled

open Recalled in
/-- A NaN that is stored across the end of a page is loaded again with its payload, through another address and offset.
    The highest address with an offset of one is not cut to zero. -/
theorem Store.remembers_across_pages : storing.memories[0]? = some memory ∧ loading.memories[0]? = some memory ∧
    (∃ t, (Plain.store (.full .f32) across.arg).exec ⟨0, 0⟩ storing = .ok () t ∧
      (Plain.load (.full .f32) again.arg).exec ⟨0, 0⟩ { t with stack := ⟨#[.i32 again.base]⟩ } =
        .ok () { t with stack := ⟨#[.f32 0x7FA00001]⟩ }) ∧
    ∃ t, (Plain.load (.full .i32) beyond.arg).exec ⟨0, 0⟩ loading = .error (.outOfBounds .memory 4294967296) t := by
  have valid : Limits.Valid ⟨1, some 2⟩ := by
    rintro max ⟨⟩
    decide
  have sized : memory.Sized := Memory.new_sized valid
  have stored : Memory.store across.address 4 0x7FA00001 memory = .ok () _ := sized.write_ok (by decide)
  obtain ⟨t, ran⟩ : ∃ t, (Plain.store (.full .f32) across.arg).exec ⟨0, 0⟩ storing = .ok () t := ⟨_, exec_storing stored⟩
  have operands : storing.stack.values = ((#[] : Array Value).push (.i32 across.base)).push (.f32 0x7FA00001) := rfl
  have after : (#[.i32 again.base] : Array Value) = (#[] : Array Value).push (.i32 again.base) := rfl
  have operand : loading.stack.values = (#[] : Array Value).push (.i32 beyond.base) := rfl
  have behind : memory.size ≤ beyond.address + 3 := by
    rw [Memory.size, memory, Memory.size_new]
    decide
  have same : again.address = across.address := by decide
  have kept : ({ t with stack := ⟨#[.i32 again.base]⟩ } : Store).memories = t.memories := rfl
  have found : storing.memories[0]? = some memory := rfl
  have found' : loading.memories[0]? = some memory := rfl
  refine ⟨found, found', ⟨t, ran, ?_⟩, (Store.remembers found').traps operand |>.mpr behind⟩
  exact (Store.remembers found).recalls rfl sized.whole operands ran .full kept same after

end Wasm
