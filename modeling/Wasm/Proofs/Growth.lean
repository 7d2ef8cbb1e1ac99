import Wasm.Proofs.Result
import Wasm.Proofs.MemoryImage

/-! Memories only grow. They do so by whole pages and within their limits, and an operation that fails leaves them as
    they were. -/

namespace Wasm
variable {α : Type}

namespace Memory

/-- A memory consists of whole pages, and of no more than it may have. -/
structure Sized (m : Memory) : Prop where
  whole : pageSize ∣ m.bytes.size
  bounded : m.bytes.size ≤ m.pageLimit * pageSize

theorem pages_of_dvd {m : Memory} (whole : pageSize ∣ m.bytes.size) : m.pages * pageSize = m.bytes.size := by
  obtain ⟨n, size⟩ := whole
  rw [pages, size, Nat.mul_comm pageSize, Segment.pagesFor_pages]

theorem Sized.pages {m : Memory} (h : m.Sized) : pagesFor m.bytes.size * pageSize = m.bytes.size := pages_of_dvd h.whole

/-- What writing to a memory and growing it keep. -/
structure Extends (m m' : Memory) : Prop where
  limits : m'.limits = m.limits
  size : m.bytes.size ≤ m'.bytes.size
  sized : m.Sized → m'.Sized

variable {m m' : Memory}

theorem Extends.refl (m : Memory) : m.Extends m := ⟨rfl, Nat.le_refl _, id⟩

theorem Extends.trans {m'' : Memory} (h : m.Extends m') (h' : m'.Extends m'') : m.Extends m'' :=
  ⟨h'.limits.trans h.limits, Nat.le_trans h.size h'.size, h'.sized ∘ h.sized⟩

theorem size_appendPages (bytes : ByteArray) (n : Nat) : (appendPages bytes n).size = bytes.size + n * pageSize := by
  induction n generalizing bytes with
  | zero => simp [appendPages]
  | succ n ih =>
    rw [appendPages, ih, ByteArray.size_append, Segment.size_zeroPage, Nat.add_assoc, Nat.add_comm pageSize,
      Nat.succ_mul]

theorem size_extendTo (pages : Nat) (m : Memory) :
    (m.extendTo pages).bytes.size = m.bytes.size + (pages * pageSize - pagesFor m.bytes.size * pageSize) := by
  rw [← Nat.sub_mul]
  exact size_appendPages ..

theorem limits_extendTo (pages : Nat) (m : Memory) : (m.extendTo pages).limits = m.limits := by
  obtain ⟨bytes, limits, name⟩ := m
  unfold extendTo
  dsimp only

theorem pageLimit_congr (h : m'.limits = m.limits) : m'.pageLimit = m.pageLimit := by
  unfold pageLimit
  rw [h]

/-- A memory may be given as many pages as its limit allows. -/
theorem extendTo_extends {pages : Nat} (allowed : pages ≤ m.pageLimit) : m.Extends (m.extendTo pages) := by
  have size := size_extendTo pages m
  have limits := limits_extendTo pages m
  refine ⟨limits, by omega, fun sized => ⟨?_, ?_⟩⟩
  · rw [size, ← Nat.sub_mul]
    exact Nat.dvd_add sized.whole (Nat.dvd_mul_left ..)
  · have bounded := sized.bounded
    have most : pages * pageSize ≤ m.pageLimit * pageSize := Nat.mul_le_mul_right _ allowed
    have filled : m.bytes.size ≤ pagesFor m.bytes.size * pageSize := Segment.pagesFor_le.mp (Nat.le_refl _)
    rw [size, pageLimit_congr limits]
    omega

theorem size_overwrite (address : Nat) (part : ByteArray) (m : Memory) : (m.overwrite address part).bytes.size =
    min address m.bytes.size + part.size + (m.bytes.size - (address + part.size)) := by
  show (part.copySlice 0 m.bytes address part.size false).size = _
  rw [ByteArray.copySlice_eq_append]
  simp

/-- Bytes are put in the place of others, once there are enough. -/
theorem Extends.overwrite {address : Nat} {part : ByteArray} (h : m.Extends m')
    (inside : m.Sized → address + part.size ≤ m'.bytes.size) : m.Extends (m'.overwrite address part) := by
  have size := size_overwrite address part m'
  have more := h.size
  refine ⟨h.limits, by omega, fun sized => ?_⟩
  have sized' := h.sized sized
  have same : (m'.overwrite address part).bytes.size = m'.bytes.size := by
    have := inside sized
    omega
  refine ⟨?_, ?_⟩
  · rw [same]
    exact sized'.whole
  · rw [same]
    exact sized'.bounded

/-- An operation that fails leaves the memory as it was, and else extends it at most. -/
def Writes (op : Op α) : Prop := ∀ m, match op m with
  | .ok _ m' => m.Extends m'
  | .error _ m' => m' = m

/-- An operation that leaves the memory as it was. -/
def Reads (op : Op α) : Prop := ∀ m, Maintains (· = m) op

theorem Reads.ok {op : Op α} (h : Reads op) {a : α} (done : op m = .ok a m') : m' = m := (h m).ok rfl done

theorem Reads.error {op : Op α} (h : Reads op) {e : Trap} (failed : op m = .error e m') : m' = m :=
  (h m).error rfl failed

theorem read_reads (address n : Nat) : Reads (read address n) := by
  refine fun m => .of_cases (fun _ bytes m' same done => ?_) fun _ e m' same failed => ?_
  · unfold read at done
    split at done <;> cases done
    exact same
  · unfold read at failed
    split at failed <;> cases failed
    exact same

theorem load_reads (address n : Nat) : Reads (load address n) := fun m => (read_reads address n m).map _

/-- Enough room is made. -/
theorem reserve_eq_ok {address n : Nat} (h : reserve address n m = .ok () m') :
    m.Extends m' ∧ (m.Sized → address + n ≤ m'.bytes.size) := by
  unfold reserve at h
  split at h
  · cases h
  · split at h
    · cases h
      exact ⟨.refl m, fun _ => ‹_›⟩
    · split at h <;> cases h
      refine ⟨extendTo_extends (Nat.not_lt.mp ‹_›), fun sized => ?_⟩
      have filled : pagesFor m.bytes.size * pageSize = m.bytes.size := sized.pages
      have room : address + n ≤ pagesFor (address + n) * pageSize := Segment.pagesFor_le.mp (Nat.le_refl _)
      rw [size_extendTo]
      omega

theorem reserve_eq_error {address n : Nat} {e : Trap} (h : reserve address n m = .error e m') : m' = m := by
  unfold reserve at h
  repeat' split at h
  all_goals cases h
  all_goals rfl

theorem write_writes (address : Nat) (part : ByteArray) : Writes (write address part) := by
  intro m
  unfold write
  cases reserved : reserve address part.size m with
  | ok _ m' =>
    obtain ⟨extended, inside⟩ := reserve_eq_ok reserved
    exact extended.overwrite inside
  | error e m' => exact reserve_eq_error reserved

theorem store_writes (address n value : Nat) : Writes (store address n value) := write_writes _ _

theorem fill_eq_write (address : Nat) (b : UInt8) (n : Nat) : fill address b n = write address ⟨Array.replicate n b⟩ := by
  funext m
  unfold fill write
  rw [show (ByteArray.mk (Array.replicate n b)).size = n from Array.size_replicate]

theorem fill_writes (address : Nat) (b : UInt8) (n : Nat) : Writes (fill address b n) := by
  rw [fill_eq_write]
  exact write_writes address _

theorem copy_writes (target source n : Nat) : Writes (copy target source n) := by
  intro m
  unfold copy
  cases done : read source n m with
  | error e m' =>
    rw [bind_error done]
    exact (read_reads source n).error done
  | ok part m' =>
    obtain rfl := (read_reads source n).ok done
    rw [bind_ok done]
    exact write_writes target part _

theorem grow_eq (delta : Nat) (m : Memory) : m.grow delta =
    if m.pageLimit < m.pages + delta then (none, m) else (some m.pages, m.extendTo (m.pages + delta)) := rfl

theorem grow_extends {delta before : Nat} (h : m.grow delta = (some before, m')) : m.Extends m' := by
  unfold grow at h
  dsimp only at h
  split at h <;> cases h
  exact extendTo_extends (Nat.not_lt.mp ‹_›)

/-- A memory that may not grow stays as it is. -/
theorem grow_eq_none {delta : Nat} (h : m.grow delta = (none, m')) : m' = m := by
  unfold grow at h
  dsimp only at h
  split at h <;> cases h
  rfl

end Memory
end Wasm
