import Wasm.Proofs.BlockTypes
import Wasm.Proofs.Container

/-! The readers of the binary format are local: what one of them gives depends on the bytes alone that it passes over, and
    these are one at least. A count is compared with all that remains, but it counts bytes that are passed over too. -/

namespace Wasm

/-- The same header in an input that starts `base` bytes earlier. -/
def SectionHeader.shift (base : Nat) (h : SectionHeader) : SectionHeader := { h with start := h.start + base }

/-- The spellings of a load's or a store's immediates: the alignment, then the offset. -/
inductive MemArg.Spelled : Spelling MemArg
  | mk {align offset u v} : Spelling.u32 align u → Spelling.u32 offset v → Spelled ⟨align, offset⟩ (u ++ v)

namespace Reader
variable {α : Type} {r : Reader α} {shift : Nat → α → α}

/-- A value that tells no position is the same in an input that starts earlier. -/
def still (_ : Nat) (a : α) : α := a

/-- The readers of the binary format, each with what its values are in an input that starts some bytes earlier. -/
inductive InFormat : {α : Type} → Reader α → (Nat → α → α) → Prop
  | byte : InFormat byte still
  | unsigned (w : Width) : InFormat (Leb128.unsigned w.bits) still
  | signed (w : Width) : InFormat (Leb128.signed w.bits) still
  | countedBytes : InFormat countedBytes still
  | name : InFormat name still
  | vector {α : Type} {item : Reader α} : InFormat item still → InFormat (vector item) still
  | valType : InFormat valType still
  | limits : InFormat limits still
  | funcType : InFormat funcType still
  | mutability : InFormat mutability still
  | tableType : InFormat tableType still
  | constExpr : InFormat constExpr still
  | blockType : InFormat blockType still
  | memArg : InFormat memArg still
  | importEntry : InFormat importEntry still
  | globalEntry : InFormat globalEntry still
  | exportEntry : InFormat exportEntry still
  | localGroup : InFormat localGroup still
  | codeEntry : InFormat codeEntry still
  | dataEntry : InFormat dataEntry still
  | sectionHeader : InFormat sectionHeader SectionHeader.shift
  | typeSection : InFormat typeSection still
  | importSection : InFormat importSection still
  | functionSection : InFormat functionSection still
  | memorySection : InFormat memorySection still
  | globalSection : InFormat globalSection still
  | exportSection : InFormat exportSection still
  | startSection : InFormat startSection still
  | dataCountSection : InFormat dataCountSection still
  | codeSection : InFormat codeSection still
  | dataSection : InFormat dataSection still

/-- A reader that succeeds has passed over a byte at least, and not over the end. -/
def Consumes (r : Reader α) : Prop :=
  ∀ ⦃data : ByteArray⦄ ⦃pos : Nat⦄ ⦃a : α⦄ ⦃next : Nat⦄, pos ≤ data.size → r data pos = .ok a next →
    pos < next ∧ next ≤ data.size

/-- The bytes that a reader passes over are some, and they give the same value wherever they stand. -/
def Local (r : Reader α) (shift : Nat → α → α) : Prop :=
  ∀ ⦃data : ByteArray⦄ ⦃pos : Nat⦄ ⦃a : α⦄ ⦃next : Nat⦄, pos ≤ data.size → r data pos = .ok a next →
    ∃ word b, word ≠ [] ∧ Occurs word data pos ∧ next = pos + word.length ∧ a = shift pos b ∧
      ∀ ⦃data' : ByteArray⦄ ⦃pos' : Nat⦄, data'.size < addressLimit → Occurs word data' pos' →
        r data' pos' = .ok (shift pos' b) (pos' + word.length)

theorem Local.consumes (h : Local r shift) : r.Consumes := by
  intro data pos a next inside done
  obtain ⟨word, -, some, occurs, rfl, -⟩ := h inside done
  have length := List.length_pos_iff.mpr some
  exact ⟨Nat.lt_add_of_pos_right length, occurs.bound⟩

/-! ### Readers of spellings -/

end Reader

theorem Decoder.Recognizes.isLocal {α : Type} {r : Reader α} {L : Spelling α} (h : r.Recognizes L) {e : ReadError}
    {stop : Nat} (empty : r .empty 0 = .error e stop) : r.Local Reader.still := by
  intro data pos a next inside done
  obtain ⟨word, spelled, occurs, length⟩ := h.sound done inside
  refine ⟨word, a, ?_, occurs, length, rfl, fun data' pos' small there => h.complete small spelled there⟩
  rintro rfl
  exact h.proper empty a spelled

namespace Reader
variable {α : Type} {r item : Reader α} {shift : Nat → α → α}

/-- What a local reader gives is spelled by the bytes that it passes over. -/
theorem Local.recognizes (h : Local r still) : r.Recognizes fun a word => word ≠ [] ∧
    ∀ ⦃data : ByteArray⦄ ⦃pos : Nat⦄, data.size < addressLimit → Occurs word data pos →
      r data pos = .ok a (pos + word.length) where
  sound done inside := by
    obtain ⟨word, b, some, occurs, length, rfl, same⟩ := h inside done
    exact ⟨word, ⟨some, same⟩, occurs, length⟩
  complete small spelled occurs := spelled.2 small occurs

theorem byte_recognizes : byte.Recognizes fun b word => word = [b] where
  sound done _ := by
    obtain ⟨inside, rfl, rfl⟩ := byte_eq_ok.mp done
    exact ⟨_, rfl, Occurs.singleton.mpr ⟨inside, rfl⟩, rfl⟩
  complete := by
    rintro data pos b _ - rfl occurs
    obtain ⟨inside, rfl⟩ := Occurs.singleton.mp occurs
    exact byte_eq_ok.mpr ⟨inside, rfl, rfl⟩

theorem memArg_recognizes : memArg.Recognizes MemArg.Spelled :=
  (u32_recognizes.bind fun align => u32_recognizes.map (MemArg.mk align)).congr fun arg word => by
    constructor
    · rintro ⟨align, offset⟩
      exact ⟨_, _, _, align, ⟨_, rfl, offset⟩, rfl⟩
    · rintro ⟨_, u, v, align, ⟨_, rfl, offset⟩, rfl⟩
      exact .mk align offset

theorem u32_inside {data : ByteArray} {pos next n : Nat} (number : u32 data pos = .ok n next) :
    pos ≤ data.size ∧ next ≤ data.size := by
  obtain ⟨b, mid, first, rest⟩ := Decoder.bind_ok_iff.mp number
  obtain ⟨inside, -, -⟩ := byte_eq_ok.mp first
  have within := Nat.le_of_lt inside
  exact ⟨within, (u32_forward number).2 within⟩

theorem u32_fits {data : ByteArray} {pos next n : Nat} (number : u32 data pos = .ok n next) : n < 2 ^ 32 := by
  obtain ⟨word, spelled, -, -⟩ := u32_recognizes.sound number (u32_inside number).1
  exact spelled.fits

/-! ### Each reader -/

/-- The count of a vector has been enough for its items, so it is wherever the same bytes stand. -/
theorem vector_local (h : Local item still) : Local (vector item) still :=
  (vector_recognizes h.recognizes fun _ spelled => spelled.1 rfl).isLocal rfl

theorem sectionHeader_start {data : ByteArray} {pos next : Nat} {header : SectionHeader}
    (done : sectionHeader data pos = .ok header next) : header.start = next := by
  obtain ⟨_, _, here, rest⟩ := Decoder.bind_ok_iff.mp done
  obtain ⟨b, _, -, rest⟩ := Decoder.bind_ok_iff.mp rest
  cases known : SectionKind.ofId? b.toNat with
  | none =>
    rw [known] at rest
    cases rest
  | some kind =>
    rw [known] at rest
    obtain ⟨_, _, -, rest⟩ := Decoder.bind_ok_iff.mp rest
    cases rest
    rfl

theorem sectionHeader_local : Local sectionHeader SectionHeader.shift := by
  intro data pos header next inside done
  obtain ⟨b, u, known, size, occurs, rfl⟩ := Load.sectionHeader_sound done
  have start := sectionHeader_start done
  refine ⟨b :: u, { header with start := (b :: u).length }, nofun, occurs, rfl, ?_, fun data' pos' small there => ?_⟩
  · obtain ⟨kind, size, _⟩ := header
    obtain rfl : _ = pos + (b :: u).length := start
    rw [Nat.add_comm]
    rfl
  · rw [Load.sectionHeader_complete small known size there, Nat.add_comm pos']
    rfl

theorem InFormat.isLocal {α : Type} {r : Reader α} {shift : Nat → α → α} (h : InFormat r shift) : Local r shift := by
  induction h with
  | byte => exact byte_recognizes.isLocal rfl
  | unsigned w => cases w <;> exact (Leb128.unsigned_recognizes (by decide)).isLocal rfl
  | signed w => cases w <;> exact (Leb128.signed_recognizes _).isLocal rfl
  | countedBytes => exact countedBytes_recognizes.isLocal rfl
  | name => exact name_recognizes.isLocal rfl
  | vector _ ih => exact vector_local ih
  | valType => exact valType_recognizes.isLocal rfl
  | limits => exact limits_recognizes.isLocal rfl
  | funcType => exact funcType_recognizes.isLocal rfl
  | mutability => exact mutability_recognizes.isLocal rfl
  | tableType => exact tableType_recognizes.isLocal rfl
  | constExpr => exact constExpr_recognizes.isLocal rfl
  | blockType => exact blockType_recognizes.isLocal rfl
  | memArg => exact memArg_recognizes.isLocal rfl
  | importEntry => exact importEntry_recognizes.isLocal rfl
  | globalEntry => exact globalEntry_recognizes.isLocal rfl
  | exportEntry => exact exportEntry_recognizes.isLocal rfl
  | localGroup => exact localGroup_recognizes.isLocal rfl
  | codeEntry => exact codeEntry_recognizes.isLocal rfl
  | dataEntry => exact dataEntry_recognizes.isLocal rfl
  | sectionHeader => exact sectionHeader_local
  | typeSection => exact vector_local (funcType_recognizes.isLocal rfl)
  | importSection => exact vector_local (importEntry_recognizes.isLocal rfl)
  | functionSection => exact vector_local (u32_recognizes.isLocal rfl)
  | memorySection => exact vector_local (limits_recognizes.isLocal rfl)
  | globalSection => exact vector_local (globalEntry_recognizes.isLocal rfl)
  | exportSection => exact vector_local (exportEntry_recognizes.isLocal rfl)
  | startSection => exact u32_recognizes.isLocal rfl
  | dataCountSection => exact u32_recognizes.isLocal rfl
  | codeSection => exact vector_local (codeEntry_recognizes.isLocal rfl)
  | dataSection => exact vector_local (dataEntry_recognizes.isLocal rfl)

end Reader
end Wasm
