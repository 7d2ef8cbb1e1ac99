import Wasm.Proofs.Records

/-! Block types. Tags and signature indices share the first byte: a tag has bit 6 set and bit 7 clear. No spelling of an
    index starts with such a byte, as its groups of seven bits would end there, on a number that is negative. -/

namespace Wasm
open Leb128

/-- The spellings of a block type: a byte for the empty one, the tag of a result, or a signature index with a sign. -/
inductive BlockType.Spelled : Spelling BlockType
  | empty : Spelled .empty [0x40]
  | result {t : ValType} : Spelled (.result t) [t.tag]
  | signature {n : Nat} {word} : n < 2 ^ 32 → SpelledSigned 64 n word → Spelled (.signature n) word

/-! ### First bytes -/

/-- The byte stands for a block type by itself. -/
def IsBlockTag (b : UInt8) : Prop := b = 0x40 ∨ ∃ t : ValType, b = t.tag

theorem IsBlockTag.bounds {b : UInt8} (h : IsBlockTag b) : 64 ≤ b.toNat ∧ b.toNat < 128 := by
  rcases h with rfl | ⟨t, rfl⟩
  · decide
  · cases t <;> decide

section
variable {n : Int} {b : UInt8} {word : List UInt8} {data : ByteArray} {pos : Nat}

/-- The first group of a number that is not negative is no tag. -/
theorem Leb128.Signed.first_not_tag (h : Signed n (b :: word)) (natural : 0 ≤ n) : ¬IsBlockTag b := by
  intro tag
  obtain ⟨least, most⟩ := tag.bounds
  -- A tag would be the last group, with the sign bit set.
  have closed : continues b = false := decide_eq_false (Nat.not_le.mpr most)
  have group : payload b = b.toNat := Nat.mod_eq_of_lt most
  obtain ⟨value, -⟩ := (signed_last closed).mp h
  rw [lastSigned, group, if_pos least] at value
  omega

theorem Leb128.Signed.not_tag_at (h : Signed n word) (natural : 0 ≤ n) (occurs : Occurs word data pos) :
    ∃ inside : pos < data.size, ¬IsBlockTag data[pos] := by
  cases word with
  | nil => cases h
  | cons b word =>
    obtain ⟨inside, rfl⟩ := Occurs.singleton.mp (Occurs.cons.mp occurs).1
    exact ⟨inside, h.first_not_tag natural⟩

end

namespace Reader

/-! ### The reader, by the first byte -/

section
variable {data : ByteArray} {pos next : Nat} {type : BlockType}

theorem peek_end (h : data.size ≤ pos) : peek data pos = .error (.unexpectedEnd pos) pos :=
  dif_neg (Nat.not_lt.mpr h)

theorem peek_eq_ok {b : UInt8} : peek data pos = .ok b next ↔ ∃ h : pos < data.size, data[pos] = b ∧ next = pos := by
  rcases Nat.lt_or_ge pos data.size with inside | outside
  · have read : peek data pos = .ok data[pos] pos := dif_pos inside
    simp [read, inside, eq_comm]
  · simp [peek_end outside, Nat.not_lt.mpr outside]

theorem skip_eq_ok {n : Nat} : skip n data pos = .ok () next ↔
    pos + n < addressLimit ∧ pos + n ≤ data.size ∧ next = pos + n := by
  show (discard (bytes n data) : EStateM _ _ _) pos = _ ↔ _
  simp [discard_eq_ok, bytes_eq_ok]

theorem blockIndex_eq_ok : (do
      let first ← position
      let index ← signed 64
      if 0 ≤ index ∧ index < (1 <<< 32 : Nat) then return .signature index.toNat else reject .blockType first : Reader _)
        data pos = .ok type next ↔
    ∃ n : Nat, n < 2 ^ 32 ∧ signed 64 data pos = .ok n next ∧ type = .signature n := by
  simp only [Decoder.bind_ok_iff]
  constructor
  · rintro ⟨_, _, here, index, mid, number, rest⟩
    cases here
    split at rest
    · rename_i fits
      cases rest
      obtain ⟨n, rfl⟩ := Int.eq_ofNat_of_zero_le fits.1
      exact ⟨n, by simpa using fits.2, number, rfl⟩
    · cases rest
  · rintro ⟨n, fits, number, rfl⟩
    refine ⟨pos, pos, rfl, n, next, number, ?_⟩
    rw [if_pos ⟨Int.natCast_nonneg n, by simpa using fits⟩]
    rfl

theorem blockType_eq_ok : blockType data pos = .ok type next ↔ ∃ inside : pos < data.size,
    (data[pos] = 0x40 ∧ type = .empty ∧ skip 1 data pos = .ok () next) ∨
    (∃ t : ValType, data[pos] = t.tag ∧ type = .result t ∧ skip 1 data pos = .ok () next) ∨
    (¬IsBlockTag data[pos] ∧ ∃ n : Nat, n < 2 ^ 32 ∧ signed 64 data pos = .ok n next ∧ type = .signature n) := by
  rw [blockType, Decoder.bind_ok_iff]
  constructor
  · rintro ⟨b, here, first, rest⟩
    obtain ⟨inside, rfl, rfl⟩ := peek_eq_ok.mp first
    refine ⟨inside, ?_⟩
    split at rest
    · rename_i empty
      obtain ⟨_, _, skipped, rest⟩ := Decoder.bind_ok_iff.mp rest
      cases rest
      exact .inl ⟨empty, rfl, skipped⟩
    rename_i full
    cases tag : ValType.ofTag? data[here] with
    | some t =>
      rw [tag] at rest
      obtain ⟨_, _, skipped, rest⟩ := Decoder.bind_ok_iff.mp rest
      cases rest
      exact .inr (.inl ⟨t, ValType.ofTag?_eq_some.mp tag, rfl, skipped⟩)
    | none =>
      rw [tag] at rest
      refine .inr (.inr ⟨?_, blockIndex_eq_ok.mp rest⟩)
      rintro (empty | ⟨t, same⟩)
      · exact full empty
      · rw [ValType.ofTag?_eq_some.mpr same] at tag
        cases tag
  · rintro ⟨inside, cases⟩
    refine ⟨_, pos, peek_eq_ok.mpr ⟨inside, rfl, rfl⟩, ?_⟩
    rcases cases with ⟨empty, rfl, skipped⟩ | ⟨t, tag, rfl, skipped⟩ | ⟨untagged, index⟩
    · rw [if_pos empty]
      exact Decoder.bind_ok_iff.mpr ⟨_, _, skipped, rfl⟩
    -- No tag of a type is the byte of the empty type, so that the order of the tests does not matter.
    · have full : data[pos] ≠ 0x40 := by
        rw [tag]
        cases t <;> decide
      rw [if_neg full, tag, ValType.ofTag?_tag]
      exact Decoder.bind_ok_iff.mpr ⟨_, _, skipped, rfl⟩
    · have none : ValType.ofTag? data[pos] = none := by
        refine Option.eq_none_iff_forall_ne_some.mpr fun t tag => ?_
        exact untagged (.inr ⟨t, ValType.ofTag?_eq_some.mp tag⟩)
      rw [if_neg fun empty => untagged (.inl empty), none]
      exact blockIndex_eq_ok.mpr index

/-- What the reader takes for a number, on an input of its own, spells it. -/
theorem spelled_of_signed {bits : Nat} {n : Int} {word : List UInt8}
    (number : signed bits word.toByteArray 0 = .ok n word.length) : SpelledSigned bits n word := by
  obtain ⟨u, spelled, occurs, length⟩ := (signed_recognizes bits).sound number (Nat.zero_le _)
  have same := occurs.eq_of_size (by simp; omega)
  rwa [← List.toByteArray_inj.mp same] at spelled

theorem signed_inside {bits : Nat} {n : Int} (number : signed bits data pos = .ok n next) : pos < data.size := by
  rw [signed] at number
  cases budget : maxBytes bits with
  | zero =>
    rw [budget] at number
    cases number
  | succ k =>
    rw [budget] at number
    obtain ⟨_, _, first, -⟩ := Decoder.bind_ok_iff.mp number
    exact (byte_eq_ok.mp first).1

theorem skip_one (small : data.size < addressLimit) : skip 1 data pos = .ok () next ↔ pos < data.size ∧ next = pos + 1 := by
  rw [skip_eq_ok]
  omega

end

theorem blockType_recognizes : blockType.Recognizes BlockType.Spelled where
  sound done within := by
    obtain ⟨inside, h⟩ := blockType_eq_ok.mp done
    rcases h with ⟨empty, rfl, skipped⟩ | ⟨t, tag, rfl, skipped⟩ | ⟨-, n, fits, number, rfl⟩
    · exact ⟨_, .empty, Occurs.singleton.mpr ⟨inside, empty⟩, (skip_eq_ok.mp skipped).2.2⟩
    · exact ⟨_, .result, Occurs.singleton.mpr ⟨inside, tag⟩, (skip_eq_ok.mp skipped).2.2⟩
    · obtain ⟨word, spelled, occurs, length⟩ := (signed_recognizes 64).sound number within
      exact ⟨word, .signature fits spelled, occurs, length⟩
  complete small spelled occurs := by
    cases spelled with
    | empty =>
      obtain ⟨inside, same⟩ := Occurs.singleton.mp occurs
      exact blockType_eq_ok.mpr ⟨inside, .inl ⟨same, rfl, (skip_one small).mpr ⟨inside, rfl⟩⟩⟩
    | @result t =>
      obtain ⟨inside, same⟩ := Occurs.singleton.mp occurs
      exact blockType_eq_ok.mpr ⟨inside, .inr (.inl ⟨t, same, rfl, (skip_one small).mpr ⟨inside, rfl⟩⟩)⟩
    | @signature n word fits spelled =>
      obtain ⟨inside, untagged⟩ := spelled.groups.not_tag_at (Int.natCast_nonneg n) occurs
      have number := (signed_recognizes 64).complete small spelled occurs
      exact blockType_eq_ok.mpr ⟨inside, .inr (.inr ⟨untagged, n, fits, number, rfl⟩)⟩

/-! ### Tags and indices -/

/-- A block type is read from a tag, or else from a number with a sign that is an index of 32 bits, and from nothing else.
    Wherever the bytes of an index stand, however it is spelled, that index is read, and just these bytes. -/
theorem blockType_unambiguous (data : ByteArray) (small : data.size < addressLimit) (pos : Nat) :
    (∀ (n : Nat) (word : List UInt8), n < 2 ^ 32 → signed 64 word.toByteArray 0 = .ok n word.length →
      Occurs word data pos → blockType data pos = .ok (.signature n) (pos + word.length) ∧
        ∀ b, IsBlockTag b → ¬Occurs [b] data pos) ∧
    ∀ type next, blockType data pos = .ok type next ↔
      (Occurs [0x40] data pos ∧ type = .empty ∧ next = pos + 1) ∨
      (∃ t : ValType, Occurs [t.tag] data pos ∧ type = .result t ∧ next = pos + 1) ∨
      ∃ n : Nat, n < 2 ^ 32 ∧ signed 64 data pos = .ok n next ∧ type = .signature n := by
  constructor
  · intro n word fits number occurs
    have spelled := spelled_of_signed number
    obtain ⟨inside, untagged⟩ := spelled.groups.not_tag_at (Int.natCast_nonneg n) occurs
    refine ⟨blockType_recognizes.complete small (.signature fits spelled) occurs, ?_⟩
    intro b tag other
    obtain ⟨_, rfl⟩ := Occurs.singleton.mp other
    exact untagged tag
  · intro type next
    simp only [blockType_eq_ok, Occurs.singleton, skip_one small]
    constructor
    · rintro ⟨inside, ⟨empty, rfl, -, rfl⟩ | ⟨t, tag, rfl, -, rfl⟩ | ⟨-, index⟩⟩
      · exact .inl ⟨⟨inside, empty⟩, rfl, rfl⟩
      · exact .inr (.inl ⟨t, ⟨inside, tag⟩, rfl, rfl⟩)
      · exact .inr (.inr index)
    · rintro (⟨⟨inside, empty⟩, rfl, rfl⟩ | ⟨t, ⟨inside, tag⟩, rfl, rfl⟩ | ⟨n, fits, number, rfl⟩)
      · exact ⟨inside, .inl ⟨empty, rfl, inside, rfl⟩⟩
      · exact ⟨inside, .inr (.inl ⟨t, tag, rfl, inside, rfl⟩)⟩
      · obtain ⟨word, spelled, occurs, -⟩ := (signed_recognizes 64).sound number (Nat.le_of_lt (signed_inside number))
        obtain ⟨inside, untagged⟩ := spelled.groups.not_tag_at (Int.natCast_nonneg n) occurs
        exact ⟨inside, .inr (.inr ⟨untagged, n, fits, number, rfl⟩)⟩

/-- Two spellings of 64, whose lowest group by itself is the empty block type, and one of 127, whose lowest group is the
    tag of a type. A byte that could continue them stands behind them. -/
theorem blockType_unambiguous_groups :
    blockType ⟨#[0xC0, 0x00, 0x80]⟩ 0 = .ok (.signature 64) 2 ∧
      blockType ⟨#[0xC0, 0x80, 0x80, 0x00, 0x80]⟩ 0 = .ok (.signature 64) 4 ∧
      blockType ⟨#[0xFF, 0x00, 0x80]⟩ 0 = .ok (.signature 127) 2 := by
  refine ⟨?_, ?_, ?_⟩
  · exact ((blockType_unambiguous _ (by decide) 0).1 64 [0xC0, 0x00] (by decide) rfl ⟨[], [0x80], rfl, rfl⟩).1
  · exact ((blockType_unambiguous _ (by decide) 0).1 64 [0xC0, 0x80, 0x80, 0x00] (by decide) rfl ⟨[], [0x80], rfl, rfl⟩).1
  · exact ((blockType_unambiguous _ (by decide) 0).1 127 [0xFF, 0x00] (by decide) rfl ⟨[], [0x80], rfl, rfl⟩).1

end Reader
end Wasm
