import Wasm.Proofs.Result
import Wasm.Instr.Basic

/-! Readers only go forward, and never past the end of their input. An instruction takes a byte at least, and the
    marks `else` and `end` take exactly one. -/

namespace Wasm

/-- A reader that succeeds has not gone back, and not past the end. -/
def Decoder.Forward {ε α : Type} (r : Decoder ε α) : Prop :=
  ∀ ⦃data : ByteArray⦄ ⦃pos : Nat⦄ ⦃a : α⦄ ⦃next : Nat⦄, r data pos = .ok a next →
    pos ≤ next ∧ (pos ≤ data.size → next ≤ data.size)

namespace Decoder
variable {ε α β : Type}

theorem bind_ok_iff {r : Decoder ε α} {f : α → Decoder ε β} {data : ByteArray} {pos next : Nat} {b : β} :
    (r >>= f) data pos = .ok b next ↔ ∃ a mid, r data pos = .ok a mid ∧ f a data mid = .ok b next :=
  bind_eq_ok

namespace Forward

theorem pure (a : α) : Forward (Pure.pure a : Decoder ε α) := by
  intro data pos b next h
  cases h
  exact ⟨Nat.le_refl _, id⟩

theorem throw (e : ε) : Forward (MonadExcept.throw e : Decoder ε α) := fun _ _ _ _ h => by cases h

theorem bind {r : Decoder ε α} {f : α → Decoder ε β} (hr : Forward r) (hf : ∀ a, Forward (f a)) : Forward (r >>= f) := by
  intro data pos b next h
  obtain ⟨a, mid, h₁, h₂⟩ := bind_ok_iff.mp h
  have first := hr h₁
  have second := hf a h₂
  exact ⟨Nat.le_trans first.1 second.1, second.2 ∘ first.2⟩

theorem map {r : Decoder ε α} (f : α → β) (hr : Forward r) : Forward (f <$> r) := by
  intro data pos b next h
  have h : EStateM.map f (r data) pos = .ok b next := h
  unfold EStateM.map at h
  split at h <;> cases h
  exact hr ‹_›

end Forward
end Decoder

namespace Reader
open Decoder
variable {α : Type}

theorem position_forward : Forward position := fun _ _ _ _ h => by cases h; exact ⟨Nat.le_refl _, id⟩

theorem remaining_forward : Forward remaining := fun _ _ _ _ h => by cases h; exact ⟨Nat.le_refl _, id⟩

theorem peek_forward : Forward peek := by
  intro data pos b next h
  unfold peek at h
  split at h <;> cases h
  exact ⟨Nat.le_refl _, id⟩

theorem byte_eq_ok {data : ByteArray} {pos next : Nat} {b : UInt8} :
    byte data pos = .ok b next ↔ ∃ h : pos < data.size, data[pos] = b ∧ next = pos + 1 := by
  unfold byte
  split
  · rename_i hlt
    constructor
    · intro h
      cases h
      exact ⟨hlt, rfl, rfl⟩
    · rintro ⟨_, rfl, rfl⟩
      rfl
  · rename_i hlt
    constructor
    · intro h
      cases h
    · rintro ⟨h, _⟩
      exact absurd h hlt

theorem byte_forward : Forward byte := by
  intro data pos b next h
  obtain ⟨h, -, rfl⟩ := byte_eq_ok.mp h
  omega

theorem bytes_forward (n : Nat) : Forward (bytes n) := by
  intro data pos part next h
  unfold bytes peekBytes at h
  split at h <;> rename_i h'
  · cases h
    split at h'
    · cases h'
    · split at h' <;> cases h'
      omega
  · cases h

theorem skip_forward (n : Nat) : Forward (skip n) := (bytes_forward n).map _

theorem fixed_forward (n : Nat) : Forward (fixed n) := (bytes_forward n).map _

theorem items_forward {item : Reader α} (hi : Forward item) : ∀ n done, Forward (items item n done)
  | 0, done => .pure done
  | n + 1, done => hi.bind fun a => items_forward hi n (done.push a)

end Reader

namespace Leb128
open Decoder

theorem overflow_forward {α : Type} (bits : Nat) : Forward (overflow bits : Reader α) :=
  Reader.position_forward.bind fun _ => .throw _

theorem tooLong_forward {α : Type} (bits : Nat) : Forward (tooLong bits : Reader α) :=
  Reader.position_forward.bind fun _ => .throw _

theorem unsignedFrom_forward (bits : Nat) : ∀ budget shift sum, Forward (unsignedFrom bits budget shift sum)
  | 0, _, _ => tooLong_forward bits
  | budget + 1, shift, sum => by
    refine Reader.byte_forward.bind fun b => ?_
    dsimp only
    split
    · exact overflow_forward bits
    · split
      · exact unsignedFrom_forward bits budget _ _
      · split
        · exact overflow_forward bits
        · exact .pure _

theorem signedFrom_forward (bits : Nat) : ∀ budget shift sum, Forward (signedFrom bits budget shift sum)
  | 0, _, _ => tooLong_forward bits
  | budget + 1, shift, sum => by
    refine Reader.byte_forward.bind fun b => ?_
    dsimp only
    split
    · exact signedFrom_forward bits budget _ _
    · generalize (if 64 ≤ payload b then _ else _ : Int) = value
      split
      · exact .pure _
      · exact overflow_forward bits

theorem unsigned_forward (bits : Nat) : Forward (unsigned bits) := unsignedFrom_forward bits _ _ _

theorem signed_forward (bits : Nat) : Forward (signed bits) := signedFrom_forward bits _ _ _

end Leb128

namespace Reader
open Decoder
variable {α : Type}

theorem u32_forward : Forward u32 := Leb128.unsigned_forward 32

theorem count_forward : Forward count := by
  refine position_forward.bind fun _ => u32_forward.bind fun n => remaining_forward.bind fun left => ?_
  split
  · exact .throw _
  · exact .pure _

theorem vector_forward {item : Reader α} (hi : Forward item) : Forward (vector item) :=
  count_forward.bind fun n => items_forward hi n #[]

theorem memArg_forward : Forward memArg := u32_forward.bind fun _ => u32_forward.bind fun _ => .pure _

theorem constant_forward : ∀ t, Forward (constant t)
  | .i32 => (Leb128.signed_forward 32).bind fun _ => .pure _
  | .i64 => (Leb128.signed_forward 64).bind fun _ => .pure _
  | .f32 => (fixed_forward 4).bind fun _ => .pure _
  | .f64 => (fixed_forward 8).bind fun _ => .pure _

theorem blockType_forward : Forward blockType := by
  refine peek_forward.bind fun b => ?_
  split
  · exact (skip_forward 1).bind fun _ => .pure _
  · split
    · exact (skip_forward 1).bind fun _ => .pure _
    · refine position_forward.bind fun _ => (Leb128.signed_forward 64).bind fun _ => ?_
      split
      · exact .pure _
      · exact .throw _

end Reader

namespace Instr
open Decoder Reader
variable {α : Type}

theorem immediate_eq_ok {r : Reader α} {data : ByteArray} {pos next : Nat} {a : α} :
    immediate r data pos = .ok a next ↔ r data pos = .ok a next := by
  unfold immediate
  split <;> simp_all

theorem immediate_forward {r : Reader α} (hr : Forward r) : Forward (immediate r) := by
  intro data pos a next h
  unfold immediate at h
  split at h <;> cases h
  exact hr ‹_›

theorem readExtended_forward : Forward readExtended := by
  refine (immediate_forward u32_forward).bind fun n => ?_
  have index := immediate_forward u32_forward
  have reserved := immediate_forward (skip_forward 1)
  split
  · exact .throw _
  · exact .pure _
  · exact index.bind fun _ => reserved.bind fun _ => .pure _
  · exact index.bind fun _ => .pure _
  · exact reserved.bind fun _ => reserved.bind fun _ => .pure _
  · exact reserved.bind fun _ => .pure _

theorem readRest_forward (op : Opcode) : Forward (readRest op) := by
  have index := immediate_forward u32_forward
  have blockType := immediate_forward blockType_forward
  have memArg := immediate_forward memArg_forward
  have reserved := immediate_forward (skip_forward 1)
  cases op with
  | block => exact blockType.bind fun _ => .pure _
  | loop => exact blockType.bind fun _ => .pure _
  | ifThen => exact blockType.bind fun _ => .pure _
  | br => exact index.bind fun _ => .pure _
  | brIf => exact index.bind fun _ => .pure _
  | brTable => exact (immediate_forward (vector_forward u32_forward)).bind fun _ => index.bind fun _ => .pure _
  | call => exact index.bind fun _ => .pure _
  | selectTyped => exact ((immediate_forward (vector_forward byte_forward)).map _).bind fun _ => .pure _
  | localGet => exact index.bind fun _ => .pure _
  | localSet => exact index.bind fun _ => .pure _
  | localTee => exact index.bind fun _ => .pure _
  | globalGet => exact index.bind fun _ => .pure _
  | globalSet => exact index.bind fun _ => .pure _
  | load op => exact memArg.bind fun _ => .pure _
  | store op => exact memArg.bind fun _ => .pure _
  | memorySize => exact reserved.bind fun _ => .pure _
  | memoryGrow => exact reserved.bind fun _ => .pure _
  | const t => exact (immediate_forward (constant_forward t)).bind fun _ => .pure _
  | extended => exact readExtended_forward.bind fun _ => .pure _
  | _ => exact .pure _

theorem read_eq_ok {body : ByteArray} {pos next : Nat} {i : Instr} :
    read body pos = .ok i next ↔
      ∃ (h : pos < body.size) (op : Opcode), Opcode.ofByte? body[pos] = some op ∧ readRest op body (pos + 1) = .ok i next := by
  unfold read
  refine bind_ok_iff.trans ?_
  constructor
  · rintro ⟨b, mid, hb, h⟩
    unfold immediate at hb
    split at hb <;> rename_i hb'
    · cases hb
      obtain ⟨hlt, rfl, rfl⟩ := byte_eq_ok.mp hb'
      refine ⟨hlt, ?_⟩
      cases hop : Opcode.ofByte? body[pos] with
      | none => rw [hop] at h; cases h
      | some op => rw [hop] at h; exact ⟨op, rfl, h⟩
    · cases hb
  · rintro ⟨hlt, op, hop, h⟩
    refine ⟨body[pos], pos + 1, ?_, ?_⟩
    · unfold immediate
      rw [byte_eq_ok.mpr ⟨hlt, rfl, rfl⟩]
    · rw [hop]
      exact h

theorem ofByte?_eq_find? (b : UInt8) : Opcode.ofByte? b = Opcode.find? b.toNat := by
  have small : b.toNat < 256 := b.toNat_lt
  simp [Opcode.ofByte?, Opcode.table, small]

/-- The instruction at a position, from the opcode that the byte there stands for. -/
theorem read_of_find? {body : ByteArray} {pos next : Nat} {op : Opcode} {i : Instr} (h : pos < body.size)
    (found : Opcode.find? body[pos].toNat = some op) (rest : readRest op body (pos + 1) = .ok i next) :
    read body pos = .ok i next :=
  read_eq_ok.mpr ⟨h, op, by rw [ofByte?_eq_find?, found], rest⟩

/-- An instruction takes a byte at least, and ends before the body does. -/
theorem read_bounds {body : ByteArray} {pos next : Nat} {i : Instr} (h : read body pos = .ok i next) :
    pos < next ∧ next ≤ body.size := by
  obtain ⟨hlt, op, -, h⟩ := read_eq_ok.mp h
  have := readRest_forward op h
  omega

/-! ### Marks -/

theorem readRest_mark {op : Opcode} {body : ByteArray} {pos next : Nat} {i : Instr} (h : readRest op body pos = .ok i next)
    (hi : i = .elseMark ∨ i = .endMark) : next = pos := by
  cases op <;> simp only [readRest, bind_ok_iff] at h
  case elseMark => cases h; rfl
  case endMark => cases h; rfl
  case brTable => obtain ⟨_, _, _, _, _, _, h⟩ := h; cases h; simp at hi
  all_goals first
    | cases h; simp at hi
    | obtain ⟨_, _, _, h⟩ := h; cases h; simp at hi

theorem read_elseMark {body : ByteArray} {pos next : Nat} (h : read body pos = .ok .elseMark next) : next = pos + 1 := by
  obtain ⟨_, _, -, h⟩ := read_eq_ok.mp h
  exact readRest_mark h (.inl rfl)

theorem read_endMark {body : ByteArray} {pos next : Nat} (h : read body pos = .ok .endMark next) : next = pos + 1 := by
  obtain ⟨_, _, -, h⟩ := read_eq_ok.mp h
  exact readRest_mark h (.inr rfl)

end Instr
end Wasm
