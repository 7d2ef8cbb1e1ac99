import Wasm.Module.Decode
import Wasm.Proofs.Operations
import Wasm.Proofs.PageMap

/-! How many pages a write leaves. A write of at least a byte leaves the fewest pages that hold the memory as it was and
    what is written. A write of nothing leaves all bytes as they are, but it adds pages up to the address it is given. -/

namespace Wasm
open Store

namespace Memory

/-- The fewest pages that hold a memory and a range. -/
structure Fewest (m : Memory) (address n pages : Nat) : Prop where
  old : m.pages ≤ pages
  range : ∀ i, address ≤ i → i < address + n → i < pages * pageSize
  least : ∀ enough, m.pages ≤ enough → (∀ i, address ≤ i → i < address + n → i < enough * pageSize) → pages ≤ enough

/-- What writes `n` bytes to a memory from an address on: the operations of the memory, the instructions that use them,
    and the active segments of a module. -/
inductive Wrote (m : Memory) : (address n : Nat) → Memory → Prop
  | write {address part m'} : Memory.write address part m = .ok () m' → Wrote m address part.size m'
  | store {address n value m'} : Memory.store address n value m = .ok () m' → Wrote m address n m'
  | storeValue {address v m'} : Memory.storeValue address v m = .ok () m' → Wrote m address v.type.size m'
  | fill {address b n m'} : Memory.fill address b n m = .ok () m' → Wrote m address n m'
  | copy {target source n m'} : Memory.copy target source n m = .ok () m' → Wrote m target n m'
  | instruction {p : Plain} {f s t m'} {below : Array Value} {target x n : BitVec 32} :
    p = .memoryFill ∨ p = .memoryCopy ∨ (∃ index, p = .memoryInit index) → s.shadow = false →
    s.stack.values = ((below.push (.i32 target)).push (.i32 x)).push (.i32 n) → s.memories[0]? = some m →
    p.exec f s = .ok () t → t.memories[0]? = some m' → Wrote m target.toNat n.toNat m'
  | segment {σ : Type} {base index address bytes m'} {l l' : Loading σ} : l.store.memories[index]? = some m →
    Load.writeSegment base index address bytes l = .ok () l' → l'.store.memories[index]? = some m' →
    Wrote m address bytes.size m'

variable {m m' : Memory} {address n : Nat} {part : ByteArray}

/-! ### Writing bytes -/

theorem write_eq_ok (h : write address part m = .ok () m') : m' = m.written address part := by
  unfold write reserve at h
  split at h
  · rename_i reserved
    split at reserved
    · cases reserved
    · split at reserved
      · rename_i inside
        have enough : pagesFor (address + part.size) ≤ m.pages :=
          Segment.pagesFor_le.mpr (Nat.le_trans inside (Segment.pagesFor_le.mp (Nat.le_refl _)))
        cases reserved
        cases h
        rw [written, extendTo_of_le enough]
      · split at reserved <;> cases reserved
        cases h
        rfl
  · cases h

theorem Sized.write_ok (sized : m.Sized) (fits : address + part.size ≤ m.pageLimit * pageSize) :
    write address part m = .ok () (m.written address part) := by
  rw [sized.write_eq, if_neg (Nat.not_lt.mpr fits)]

theorem overwrite_nothing (empty : part.size = 0) : m.overwrite address part = m := by
  show (⟨part.copySlice 0 m.bytes address part.size false, m.limits, m.name⟩ : Memory) = m
  have same : part.copySlice 0 m.bytes address part.size false = m.bytes := by
    rw [ByteArray.copySlice_eq_append, empty]
    refine ByteArray.ext ?_
    simp
  rw [same]

theorem size_written (whole : m.pages * pageSize = m.bytes.size) :
    (m.written address part).bytes.size = (m.written address part).pages * pageSize := by
  have room := le_size_extendTo whole (address + part.size)
  have filled : pagesFor m.bytes.size * pageSize = m.bytes.size := whole
  rw [pages_written, written, size_overwrite, ← Nat.mul_max_mul_right, whole]
  rw [size_extendTo] at room ⊢
  omega

/-- The pages up to the end of a range are the fewest if there is a byte in it, or if it starts in the pages there are. -/
theorem fewest_iff :
    m.Fewest address n (max m.pages (pagesFor (address + n))) ↔ 0 < n ∨ address ≤ m.pages * pageSize := by
  constructor
  · intro fewest
    rcases Nat.eq_zero_or_pos n with rfl | positive
    · have few := fewest.least m.pages (Nat.le_refl _) fun i above below => by omega
      exact .inr (Segment.pagesFor_le.mp (Nat.le_trans (Nat.le_max_right _ _) few))
    · exact .inl positive
  · intro written
    refine ⟨Nat.le_max_left _ _, fun i _ below => ?_, fun enough old range => Nat.max_le.mpr ⟨old, ?_⟩⟩
    · have room : address + n ≤ max m.pages (pagesFor (address + n)) * pageSize :=
        Segment.pagesFor_le.mp (Nat.le_max_right _ _)
      omega
    · rcases Nat.eq_zero_or_pos n with rfl | positive
      · have near : address ≤ m.pages * pageSize := by omega
        exact Nat.le_trans (Segment.pagesFor_le.mpr near) old
      · have last := range (address + n - 1) (by omega) (by omega)
        exact Segment.pagesFor_le.mpr (by omega)

/-! ### What writes -/

theorem copy_eq_ok {target source : Nat} (h : copy target source n m = .ok () m') :
    ∃ part : ByteArray, part.size = n ∧ write target part m = .ok () m' := by
  obtain ⟨part, m'', looked, wrote⟩ := bind_eq_ok.mp h
  obtain rfl := (read_reads source n).ok looked
  unfold read at looked
  split at looked <;> cases looked
  rename_i inside
  refine ⟨_, ?_, wrote⟩
  rw [ByteArray.size_extract]
  omega

theorem fill_eq_ok {b : UInt8} (h : fill address b n m = .ok () m') :
    ∃ part : ByteArray, part.size = n ∧ write address part m = .ok () m' := by
  rw [fill_eq_write] at h
  exact ⟨_, Array.size_replicate, h⟩

theorem store_eq_ok {value : Nat} (h : store address n value m = .ok () m') :
    ∃ part : ByteArray, part.size = n ∧ write address part m = .ok () m' :=
  ⟨_, by rw [List.size_toByteArray, Writer.length_littleEndian], h⟩

end Memory

namespace Store
variable {α : Type} {s t : Store} {m m' : Memory}

theorem popAddress_top {below : Array Value} {n : BitVec 32} (h : s.stack.values = below.push (.i32 n)) :
    onStack Stack.popAddress s = .ok n.toNat { s with stack := ⟨below⟩ } :=
  onStack_eq_ok.mpr ⟨⟨below⟩, Stack.popAddress_eq_ok.mpr ⟨n, h, rfl⟩, rfl⟩

theorem onMemory_ran {index : Nat} {op : Memory.Op α} {a : α} (h : onMemory index op s = .ok a t)
    (before : s.memories[index]? = some m) (after : t.memories[index]? = some m') : op m = .ok a m' := by
  obtain ⟨k, k', found, ran, rfl⟩ := onMemory_eq_ok.mp h
  obtain rfl : m = k := Option.some.inj (before.symm.trans found)
  have inside : index < s.memories.size := (Array.getElem?_eq_some_iff.mp found).1
  rw [show _ = some k' from Array.getElem?_setIfInBounds_self_of_lt inside] at after
  cases after
  exact ran

end Store

namespace Plain
variable {s t : Store} {m m' : Memory}

/-- What is written to a memory that is not that of a shadow. -/
theorem writeMemory_found {op : Memory.Op Unit} (h : writeMemory op s = .ok () t) (live : s.shadow = false)
    (before : s.memories[0]? = some m) : ∃ m', t.memories[0]? = some m' ∧ op m = .ok () m' := by
  unfold writeMemory at h
  rw [bind_ok (get_apply s), if_neg (by rw [live]; decide)] at h
  obtain ⟨_, u, changed, counted⟩ := bind_eq_ok.mp h
  cases counted
  obtain ⟨k, m', found, ran, rfl⟩ := onMemory_eq_ok.mp changed
  obtain rfl : m = k := Option.some.inj (before.symm.trans found)
  exact ⟨m', Array.getElem?_setIfInBounds_self_of_lt (Array.getElem?_eq_some_iff.mp found).1, ran⟩

theorem writeMemory_eq_ok {op : Memory.Op Unit} (h : writeMemory op s = .ok () t) (live : s.shadow = false)
    (before : s.memories[0]? = some m) (after : t.memories[0]? = some m') : op m = .ok () m' := by
  obtain ⟨k, there, ran⟩ := writeMemory_found h live before
  obtain rfl : m' = k := Option.some.inj (after.symm.trans there)
  exact ran

/-- The instructions that take a range from the stack write to a range of its length. -/
theorem exec_eq_ok {p : Plain} {f : Frame} {below : Array Value} {target x n : BitVec 32}
    (bulk : p = .memoryFill ∨ p = .memoryCopy ∨ ∃ index, p = .memoryInit index) (live : s.shadow = false)
    (operands : s.stack.values = ((below.push (.i32 target)).push (.i32 x)).push (.i32 n))
    (before : s.memories[0]? = some m) (h : p.exec f s = .ok () t) (after : t.memories[0]? = some m') :
    ∃ part : ByteArray, part.size = n.toNat ∧ Memory.write target.toNat part m = .ok () m' := by
  have first : onStack Stack.popAddress s = .ok n.toNat _ := popAddress_top operands
  have last : onStack Stack.popAddress { s with stack := ⟨below.push (.i32 target)⟩ } =
      .ok target.toNat { s with stack := ⟨below⟩ } := popAddress_top rfl
  rcases bulk with rfl | rfl | ⟨index, rfl⟩
  · have second : onStack (Stack.popInt .w32) { s with stack := ⟨(below.push (.i32 target)).push (.i32 x)⟩ } =
        .ok x { s with stack := ⟨below.push (.i32 target)⟩ } := onStack_eq_ok.mpr ⟨_, Stack.popInt_eq_ok.mpr rfl, rfl⟩
    rw [exec, bind_ok first, bind_ok second, bind_ok last] at h
    exact Memory.fill_eq_ok (writeMemory_eq_ok h live before after)
  · have second : onStack Stack.popAddress { s with stack := ⟨(below.push (.i32 target)).push (.i32 x)⟩ } =
        .ok x.toNat { s with stack := ⟨below.push (.i32 target)⟩ } := popAddress_top rfl
    rw [exec, bind_ok first, bind_ok second, bind_ok last] at h
    exact Memory.copy_eq_ok (writeMemory_eq_ok h live before after)
  · have second : onStack Stack.popAddress { s with stack := ⟨(below.push (.i32 target)).push (.i32 x)⟩ } =
        .ok x.toNat { s with stack := ⟨below.push (.i32 target)⟩ } := popAddress_top rfl
    rw [exec, bind_ok first, bind_ok second, bind_ok last, bind_ok (get_apply _), if_neg (by rw [live]; decide)] at h
    obtain ⟨part, u, taken, wrote⟩ := bind_eq_ok.mp h
    obtain ⟨⟨bytes, -, inside, rfl⟩, rfl⟩ := segment_eq_ok.mp taken
    refine ⟨_, ?_, writeMemory_eq_ok wrote live before after⟩
    rw [ByteArray.size_extract]
    omega

end Plain

/-- An active segment is written as a whole. -/
theorem Load.writeSegment_ran {σ : Type} {base index address : Nat} {bytes : ByteArray} {l l' : Loading σ}
    {m m' : Memory} (h : writeSegment base index address bytes l = .ok () l') (before : l.store.memories[index]? = some m)
    (after : l'.store.memories[index]? = some m') : Memory.write address bytes m = .ok () m' := by
  unfold writeSegment at h
  split at h <;> cases h
  exact onMemory_ran ‹_› before after

namespace Memory
variable {m m' : Memory} {address n : Nat}

/-- Whatever writes a range, in the end bytes of its length are written. -/
theorem Wrote.bytes (wrote : m.Wrote address n m') :
    ∃ part : ByteArray, part.size = n ∧ Memory.write address part m = .ok () m' := by
  cases wrote with
  | write done => exact ⟨_, rfl, done⟩
  | store done => exact store_eq_ok done
  | storeValue done => exact store_eq_ok done
  | fill done => exact fill_eq_ok done
  | copy done => exact copy_eq_ok done
  | instruction bulk live operands before done after => exact Plain.exec_eq_ok bulk live operands before done after
  | segment before done after => exact ⟨_, rfl, Load.writeSegment_ran done before after⟩

/-- A write of at least a byte leaves the fewest pages that hold the memory and what is written. A write of nothing
    changes no byte; but it leaves the fewest pages only up to the end of the memory, where it leaves the memory as it
    is, and from there on as many as its address needs. -/
theorem Wrote.fewest_pages (wrote : m.Wrote address n m') :
    (m.Fewest address n m'.pages ↔ 0 < n ∨ address ≤ m.pages * pageSize) ∧
      m'.pages = max m.pages (pagesFor (address + n)) ∧
      (m.bytes.size = m.pages * pageSize → m'.bytes.size = m'.pages * pageSize) ∧
      (n = 0 → (∀ i, m'.byteAt i = m.byteAt i) ∧ (address ≤ m.pages * pageSize → m' = m)) := by
  obtain ⟨part, rfl, done⟩ := wrote.bytes
  obtain rfl := write_eq_ok done
  rw [pages_written]
  refine ⟨fewest_iff, rfl, fun whole => ?_, fun empty => ?_⟩
  · rw [size_written whole.symm, pages_written]
  · rw [written, overwrite_nothing empty, empty]
    exact ⟨byteAt_extendTo _, fun near => extendTo_of_le (Segment.pagesFor_le.mpr near)⟩

/-- A number that is stored across the end of the only page needs another. -/
theorem store_across_page : ∃ m', store 65535 2 513 (new ⟨1, some 2⟩) = .ok () m' ∧
    (new ⟨1, some 2⟩).Fewest 65535 2 m'.pages ∧ m'.pages = 2 := by
  have valid : Limits.Valid ⟨1, some 2⟩ := by
    rintro max ⟨⟩
    decide
  have stored : store 65535 2 513 (new ⟨1, some 2⟩) = .ok () _ := (new_sized valid).write_ok (by decide)
  obtain ⟨fewest, pages, -⟩ := Wrote.fewest_pages (.store stored)
  refine ⟨_, stored, fewest.mpr (by decide), ?_⟩
  rw [pages, pages_new]
  decide

namespace Nothing

/-- No bytes are to be filled behind the end of a memory without pages. -/
def store : Store := { stack := ⟨#[.i32 1, .i32 0, .i32 0]⟩, memories := #[new ⟨0, none⟩] }

theorem exec_store (filled : fill 1 0 0 (new ⟨0, none⟩) = .ok () m') :
    Plain.memoryFill.exec ⟨0, 0⟩ store = .ok () { effects := 1, memories := #[m'] } := by
  have first : onStack Stack.popAddress store = .ok 0 { store with stack := ⟨#[.i32 1, .i32 0]⟩ } := rfl
  have second : onStack (Stack.popInt .w32) { store with stack := ⟨#[.i32 1, .i32 0]⟩ } =
      .ok 0 { store with stack := ⟨#[.i32 1]⟩ } := rfl
  have last : onStack Stack.popAddress { store with stack := ⟨#[.i32 1]⟩ } = .ok 1 { store with stack := ⟨#[]⟩ } := rfl
  have wrote : onMemory 0 (fill 1 0 0) { store with stack := ⟨#[]⟩ } = .ok () { memories := #[m'] } :=
    onMemory_eq_ok.mpr ⟨_, m', rfl, filled, rfl⟩
  rw [Plain.exec, bind_ok first, bind_ok second, bind_ok last]
  unfold Plain.writeMemory
  rw [bind_ok (get_apply _), if_neg (by decide)]
  exact bind_ok wrote

end Nothing

/-- Filling no bytes behind the end of a memory without pages adds a page, where none would do, as an operation of the
    memory and as an instruction. -/
theorem fill_nothing_adds_page : ∃ m', fill 1 0 0 (new ⟨0, none⟩) = .ok () m' ∧
    Plain.memoryFill.exec ⟨0, 0⟩ Nothing.store = .ok () { effects := 1, memories := #[m'] } ∧
    (new ⟨0, none⟩).pages = 0 ∧ m'.pages = 1 ∧ ¬(new ⟨0, none⟩).Fewest 1 0 m'.pages := by
  have valid : Limits.Valid ⟨0, none⟩ := by
    rintro max ⟨⟩
  have filled : fill 1 0 0 (new ⟨0, none⟩) = .ok () ((new ⟨0, none⟩).written 1 ⟨Array.replicate 0 0⟩) := by
    rw [fill_eq_write]
    exact (new_sized valid).write_ok (by decide)
  have bare : (new ⟨0, none⟩).pages = 0 := by
    rw [pages_new]
    decide
  refine ⟨_, filled, Nothing.exec_store filled, bare, ?_, ?_⟩
  · rw [pages_written, bare]
    decide
  · rw [pages_written]
    intro fewest
    rcases fewest_iff.mp fewest with written | near
    · exact absurd written (Nat.lt_irrefl 0)
    · rw [bare] at near
      exact absurd near (by decide)

end Memory
end Wasm
