import Wasm.Store.Memory

/-! What segments that are written one after another leave in a memory: at each address the byte of the last one that
    covers it, and as many pages as the memory has at least or one of them needs. -/

namespace Wasm

/-- The bytes of a segment, and the address they are written to. -/
abbrev Segment : Type := Nat × ByteArray

namespace Segment

/-- The address behind a segment. -/
def stop (s : Segment) : Nat := s.1 + s.2.size

/-- The byte at an address after segments have been written one after another, over zeros. -/
def byteAt (segments : List Segment) (address : Nat) : UInt8 :=
  segments.foldl (fun b s => if s.1 ≤ address then s.2[address - s.1]?.getD b else b) 0

/-- As many pages, with segments written to them. -/
def image (pages : Nat) (segments : List Segment) : ByteArray :=
  ⟨.ofFn fun i : Fin (pages * pageSize) => byteAt segments i⟩

/-- At least as many pages, and all that segments need. -/
def pagesWith (least : Nat) (segments : List Segment) : Nat :=
  segments.foldl (fun pages s => max pages (pagesFor s.stop)) least

variable {segments : List Segment} {s : Segment} {pages address : Nat}

theorem byteAt_concat : byteAt (segments ++ [s]) address =
    if s.1 ≤ address then s.2[address - s.1]?.getD (byteAt segments address) else byteAt segments address := by
  rw [byteAt, List.foldl_append]
  rfl

theorem byteAt_behind (h : ∀ s ∈ segments, s.stop ≤ address) : byteAt segments address = 0 := by
  unfold byteAt
  suffices ∀ b : UInt8, segments.foldl (fun b s => if s.1 ≤ address then s.2[address - s.1]?.getD b else b) b = b from this 0
  induction segments with
  | nil => intro b; rfl
  | cons s segments ih =>
    intro b
    have behind : s.2.size ≤ address - s.1 := by
      have := h s List.mem_cons_self
      unfold stop at this
      omega
    rw [List.foldl_cons, ih fun s hs => h s (List.mem_cons_of_mem _ hs), getElem?_neg _ _ (by omega)]
    split <;> rfl

theorem pagesWith_concat {least : Nat} :
    pagesWith least (segments ++ [s]) = max (pagesWith least segments) (pagesFor s.stop) := by
  rw [pagesWith, List.foldl_append]
  rfl

theorem pagesFor_le {size : Nat} : pagesFor size ≤ pages ↔ size ≤ pages * pageSize := by
  unfold pagesFor pageSize
  omega

theorem pagesFor_pages : pagesFor (pages * pageSize) = pages := by
  unfold pagesFor pageSize
  omega

theorem le_pagesWith {least : Nat} : least ≤ pagesWith least segments := by
  unfold pagesWith
  induction segments generalizing least with
  | nil => exact Nat.le_refl _
  | cons s segments ih => exact Nat.le_trans (Nat.le_max_left _ _) ih

/-- All segments end in the pages that they need. -/
theorem stop_le_pagesWith {least : Nat} (h : s ∈ segments) : s.stop ≤ pagesWith least segments * pageSize := by
  rw [← pagesFor_le]
  unfold pagesWith
  induction segments generalizing least with
  | nil => cases h
  | cons t segments ih =>
    rcases List.mem_cons.mp h with rfl | h
    · exact Nat.le_trans (Nat.le_max_right _ _) le_pagesWith
    · exact ih h

theorem pagesWith_le {least : Nat} (enough : least ≤ pages) (h : ∀ s ∈ segments, s.stop ≤ pages * pageSize) :
    pagesWith least segments ≤ pages := by
  unfold pagesWith
  induction segments generalizing least with
  | nil => exact enough
  | cons s segments ih =>
    exact ih (Nat.max_le.mpr ⟨enough, pagesFor_le.mpr (h s List.mem_cons_self)⟩)
      fun s hs => h s (List.mem_cons_of_mem _ hs)

theorem size_image : (image pages segments).size = pages * pageSize := Array.size_ofFn

theorem getElem_image {i : Nat} (h : i < (image pages segments).size) : (image pages segments)[i] = byteAt segments i := by
  rw [ByteArray.getElem_eq_getElem_data]
  exact Array.getElem_ofFn ..

theorem size_zeroPage : zeroPage.size = pageSize := Array.size_replicate

/-- New pages hold what the segments do not reach. -/
theorem appendPages_image (h : ∀ s ∈ segments, s.stop ≤ pages * pageSize) (more : Nat) :
    appendPages (image pages segments) more = image (pages + more) segments := by
  induction more generalizing pages with
  | zero => rfl
  | succ more ih =>
    have next : image pages segments ++ zeroPage = image (pages + 1) segments := by
      refine ByteArray.ext_getElem ?_ fun i hi hi' => ?_
      · rw [ByteArray.size_append, size_image, size_image, size_zeroPage, Nat.add_mul, Nat.one_mul]
      · rw [getElem_image]
        by_cases old : i < pages * pageSize
        · rw [ByteArray.getElem_append_left (by rwa [size_image]), getElem_image]
        · rw [ByteArray.getElem_append_right (by rw [size_image]; omega), ByteArray.getElem_eq_getElem_data,
            byteAt_behind fun s hs => Nat.le_trans (h s hs) (Nat.not_lt.mp old)]
          exact Array.getElem_replicate ..
    rw [appendPages, next, ih fun s hs => Nat.le_trans (h s hs) (Nat.mul_le_mul_right _ (Nat.le_succ _))]
    congr 1
    omega

/-- Bytes written over an image make it that of one segment more. -/
theorem copySlice_image (h : s.stop ≤ pages * pageSize) :
    s.2.copySlice 0 (image pages segments) s.1 s.2.size false = image pages (segments ++ [s]) := by
  unfold stop at h
  have size : (image pages segments).size = pages * pageSize := size_image
  have front : ((image pages segments).extract 0 s.1).size = s.1 := by rw [ByteArray.size_extract]; omega
  rw [ByteArray.copySlice_eq_append, Nat.zero_add, ByteArray.extract_zero_size, ByteArray.size_data, ByteArray.size_data,
    Nat.sub_zero, Nat.min_self]
  refine ByteArray.ext_getElem ?_ fun i hi hi' => ?_
  · simp only [ByteArray.size_append, ByteArray.size_extract, size_image]
    omega
  rw [getElem_image, byteAt_concat]
  -- A byte is before the new segment, in it, or behind it.
  by_cases before : i < s.1
  · rw [ByteArray.getElem_append_left (by rw [ByteArray.size_append]; omega), ByteArray.getElem_append_left (by omega),
      ByteArray.getElem_extract, getElem_image, if_neg (by omega), Nat.zero_add]
  rw [if_pos (by omega)]
  by_cases within : i < s.1 + s.2.size
  · have inside : i - s.1 < s.2.size := by omega
    rw [ByteArray.getElem_append_left (by rw [ByteArray.size_append]; omega), ByteArray.getElem_append_right (by omega),
      getElem?_pos s.2 (i - s.1) inside, Option.getD_some]
    congr 1
    omega
  · have place : s.1 + s.2.size + (i - (s.1 + s.2.size)) = i := by omega
    rw [ByteArray.getElem_append_right (by rw [ByteArray.size_append]; omega), ByteArray.getElem_extract, getElem_image,
      getElem?_neg s.2 (i - s.1) (by omega), Option.getD_none, ByteArray.size_append, front, place]

end Segment

/-! ### Memories -/

/-- A memory may have as many pages as it has at least. -/
def Limits.Valid (limits : Limits) : Prop := ∀ max ∈ limits.max, limits.min ≤ max

namespace Memory
open Segment
variable {limits : Limits} {name : Option String} {segments : List Segment} {s : Segment}

/-- The pages that a memory has at least. -/
def leastPages (limits : Limits) : Nat := min limits.min maxPages

/-- The pages that a memory has at most. -/
def mostPages (limits : Limits) : Nat := min (limits.max.getD maxPages) maxPages

/-- A memory of its least size, to which segments have been written. -/
def holding (limits : Limits) (name : Option String) (segments : List Segment) : Memory :=
  ⟨image (pagesWith (leastPages limits) segments) segments, limits, name⟩

theorem leastPages_le (valid : limits.Valid) : leastPages limits ≤ mostPages limits := by
  obtain ⟨least, _ | most⟩ := limits
  · exact Nat.le_min.mpr ⟨Nat.min_le_right _ _, Nat.min_le_right _ _⟩
  · have : least ≤ most := valid most rfl
    exact Nat.le_min.mpr ⟨Nat.le_trans (Nat.min_le_left _ _) this, Nat.min_le_right _ _⟩

theorem new_eq (limits : Limits) : new limits = holding limits none [] := by
  have empty : ByteArray.empty = image 0 [] := ByteArray.ext (by simp [image])
  rw [new, empty, appendPages_image (by simp), Nat.zero_add]
  rfl

theorem size_holding :
    (holding limits name segments).bytes.size = pagesWith (leastPages limits) segments * pageSize := size_image

/-- A memory grows as far as the next segment needs. -/
theorem reserve_holding (fits : s.stop ≤ mostPages limits * pageSize) :
    reserve s.1 s.2.size (holding limits name segments) =
      .ok () ⟨image (pagesWith (leastPages limits) (segments ++ [s])) segments, limits, name⟩ := by
  have few : mostPages limits ≤ maxPages := Nat.min_le_right _ _
  have near : s.stop < addressLimit := by
    refine Nat.lt_of_le_of_lt (Nat.le_trans fits (Nat.mul_le_mul_right pageSize few)) ?_
    decide
  rw [pagesWith_concat]
  change (if addressLimit ≤ s.stop then _ else if s.stop ≤ _ then _ else if _ < pagesFor s.stop then _ else _) = _
  rw [if_neg (Nat.not_le.mpr near), size_holding]
  split
  · rename_i enough
    rw [Nat.max_eq_left (pagesFor_le.mpr enough)]
    rfl
  · rename_i short
    have more : pagesWith (leastPages limits) segments ≤ pagesFor s.stop :=
      Nat.le_of_lt (Nat.not_le.mp (mt pagesFor_le.mp short))
    have room : ¬(holding limits name segments).pageLimit < pagesFor s.stop := Nat.not_lt.mpr (pagesFor_le.mpr fits)
    rw [if_neg room, extendTo, holding, size_image, pagesFor_pages, appendPages_image fun _ => stop_le_pagesWith,
      Nat.max_eq_right more, show s.1 + s.2.size = s.stop from rfl, Nat.add_sub_cancel' more]

/-- Writing a segment that fits. -/
theorem write_holding (fits : s.stop ≤ mostPages limits * pageSize) :
    write s.1 s.2 (holding limits name segments) = .ok () (holding limits name (segments ++ [s])) := by
  have inside : s.stop ≤ pagesWith (leastPages limits) (segments ++ [s]) * pageSize := stop_le_pagesWith (by simp)
  unfold write
  rw [reserve_holding fits]
  dsimp only
  rw [overwrite, copySlice_image inside]
  rfl

/-- A segment that does not fit has no room. -/
theorem reserve_holding_error (valid : limits.Valid) (fit : ∀ t ∈ segments, t.stop ≤ mostPages limits * pageSize)
    (unfit : ¬s.stop ≤ mostPages limits * pageSize) :
    reserve s.1 s.2.size (holding limits name segments) =
      .error (.outOfBounds .memory s.1) (holding limits name segments) := by
  have few := Nat.mul_le_mul_right pageSize (pagesWith_le (leastPages_le valid) fit)
  have more : (holding limits name segments).pageLimit < pagesFor s.stop := Nat.not_le.mp (mt pagesFor_le.mp unfit)
  have outside : ¬s.stop ≤ pagesWith (leastPages limits) segments * pageSize := by omega
  change (if addressLimit ≤ s.stop then _ else if s.stop ≤ _ then _ else if _ < pagesFor s.stop then _ else _) = _
  rw [size_holding, if_pos more, if_neg outside, ite_self]

theorem write_holding_error (valid : limits.Valid) (fit : ∀ t ∈ segments, t.stop ≤ mostPages limits * pageSize)
    (unfit : ¬s.stop ≤ mostPages limits * pageSize) :
    write s.1 s.2 (holding limits name segments) = .error (.outOfBounds .memory s.1) (holding limits name segments) := by
  unfold write
  rw [reserve_holding_error valid fit unfit]

end Memory
end Wasm
