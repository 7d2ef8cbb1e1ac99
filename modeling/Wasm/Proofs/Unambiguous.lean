import Wasm.Proofs.Layout

/-! No bytes spell two things. What readers recognize starts in one way only, as a reader gives one value, and the sizes
    of sections tell where each of them ends. -/

namespace Wasm
variable {α : Type}

/-- No bytes start with the spellings of two values, nor with two spellings of one. -/
def Spelling.Unambiguous (L : Spelling α) : Prop :=
  ∀ {a b : α} {u v x y : List UInt8}, L a u → L b v → u ++ x = v ++ y → a = b ∧ u = v

/-- The same of spellings that an input is long enough for. -/
theorem Decoder.Recognizes.unambiguous {r : Reader α} {L : Spelling α} (h : r.Recognizes L) {a b : α}
    {u v x y : List UInt8} (first : L a u) (second : L b v) (same : u ++ x = v ++ y) (small : u.length < addressLimit)
    (small' : v.length < addressLimit) : a = b ∧ u = v := by
  -- The longer of both words is an input that starts with the shorter one.
  wlog shorter : u.length ≤ v.length generalizing a b u v x y
  · obtain ⟨rfl, rfl⟩ := this second first same.symm small' small (by omega)
    exact ⟨rfl, rfl⟩
  obtain ⟨z, rfl⟩ : u <+: v := List.prefix_of_prefix_length_le ⟨x, same⟩ (List.prefix_append v y) shorter
  have size : (u ++ z).toByteArray.size < addressLimit := by simpa using small'
  have one := h.complete size first ⟨[], z, by simp, rfl⟩
  have other := h.complete size second ⟨[], [], by simp, rfl⟩
  obtain ⟨rfl, stop⟩ := EStateM.Result.ok.inj (one.symm.trans other)
  refine ⟨rfl, (List.append_right_eq_self.mpr (List.length_eq_zero_iff.mp ?_)).symm⟩
  rw [List.length_append] at stop
  omega

/-- Numbers take a few bytes only. -/
theorem Spelling.u32_unambiguous : Spelling.u32.Unambiguous := fun first second same =>
  Reader.u32_recognizes.unambiguous first second same
    (Nat.lt_of_le_of_lt first.inTime (by decide)) (Nat.lt_of_le_of_lt second.inTime (by decide))

/-- Where items cannot be mistaken, rows of them that fill the same bytes cannot either. -/
theorem Spelling.Items.unique {L : Spelling α} (unambiguous : L.Unambiguous) (proper : ∀ a, ¬L a []) {as bs : List α}
    {word : List UInt8} (h : L.Items as word) (h' : L.Items bs word) : as = bs := by
  induction h generalizing bs with
  | nil =>
    generalize empty : [] = word at h'
    cases h' with
    | nil => rfl
    | cons first _ =>
      obtain ⟨rfl, rfl⟩ := List.append_eq_nil_iff.mp empty.symm
      exact (proper _ first).elim
  | @cons a as u v first _ ih =>
    generalize same : u ++ v = word at h'
    cases h' with
    | nil =>
      obtain ⟨rfl, rfl⟩ := List.append_eq_nil_iff.mp same
      exact (proper _ first).elim
    | cons first' rest' =>
      obtain ⟨rfl, rfl⟩ := unambiguous first first' same
      rw [ih (List.append_cancel_left same ▸ rest')]

namespace Section
variable {s t : Section} {word u v : List UInt8}

/-- Vectors of what a reader recognizes that fill the same bytes. -/
theorem vector_unique {L : Spelling α} {item : Reader α} (h : item.Recognizes L) {e : ReadError} {pos : Nat}
    (proper : item .empty 0 = .error e pos) (small : word.length < addressLimit) {as bs : List α}
    (first : L.Vector as word) (second : L.Vector bs word) : as = bs := by
  have same : as.toArray = bs.toArray := ((Reader.vector_recognizes h (h.proper proper)).unambiguous first second
    (rfl : word ++ [] = word ++ []) small small).1
  simpa using same

/-- The contents of a section tell what it says. -/
theorem Contents.unique (small : word.length < addressLimit) (kind : s.kind = t.kind) (first : s.Contents word)
    (second : t.Contents word) : s = t := by
  cases s <;> cases t <;> cases kind
  case custom | tables | elements => rfl
  case types => rw [vector_unique Reader.funcType_recognizes rfl small first second]
  case imports => rw [vector_unique Reader.importEntry_recognizes rfl small first second]
  case functions => rw [vector_unique Reader.u32_recognizes rfl small first second]
  case memories => rw [vector_unique Reader.limits_recognizes rfl small first second]
  case globals => rw [vector_unique Reader.globalEntry_recognizes rfl small first second]
  case exports => rw [vector_unique Reader.exportEntry_recognizes rfl small first second]
  case code => rw [vector_unique Reader.codeEntry_recognizes rfl small first second]
  case data => rw [vector_unique Reader.dataEntry_recognizes rfl small first second]
  case start => rw [(Spelling.u32_unambiguous first second (rfl : word ++ [] = word ++ [])).1]
  case dataCount => rw [(Spelling.u32_unambiguous first second (rfl : word ++ [] = word ++ [])).1]

/-- The size of a section tells where it ends. -/
theorem spelled_unambiguous : Spelling.Unambiguous Spelled := by
  rintro s t _ _ x y ⟨id, size, first⟩ ⟨id', size', second⟩ same
  rw [List.cons_append, List.cons_append, List.append_assoc, List.append_assoc] at same
  obtain ⟨rfl, rest⟩ := List.cons.inj same
  obtain ⟨length, rfl⟩ := Spelling.u32_unambiguous size size' rest
  obtain ⟨rfl, -⟩ := List.append_inj (List.append_cancel_left rest) length
  have small := Nat.lt_trans size.fits (by decide : 2 ^ 32 < addressLimit)
  exact ⟨first.unique small (Option.some.inj (id.symm.trans id')) second, rfl⟩

/-- A module file can be taken apart in one way only. -/
theorem SpelledModule.unique {sections sections' : List Section} (h : SpelledModule sections word)
    (h' : SpelledModule sections' word) : sections = sections' := by
  obtain ⟨items⟩ := h
  generalize same : Load.magic.data.toList ++ _ = whole at h'
  obtain ⟨items'⟩ := h'
  rw [List.append_cancel_left (List.append_cancel_left same)] at items
  exact items.unique spelled_unambiguous (fun _ => nofun) items'

end Section
end Wasm
