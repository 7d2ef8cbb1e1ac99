import Wasm.Proofs.Growth
import Wasm.Proofs.Guarded
import Wasm.Proofs.Records

/-! Memories as maps. A map has a byte at every address, which is zero until something else is written there, and beside
    it no more than a number of pages. What a memory answers to any sequence of accesses, what is in it and how large it
    is, such a map tells. -/

namespace Wasm

namespace Memory

/-- What an access is answered. -/
inductive Answer
  | done
  | pages (before : Option Nat)
  | bytes (part : ByteArray)
  | number (n : Nat)
  | value (v : Value)

/-- What may be asked of a memory. Any bytes are written by `write`, those of numbers and values by `store` and
    `storeValue`. -/
inductive Access
  | grow (delta : Nat)
  | read (address n : Nat)
  | load (address n : Nat)
  | loadValue (address : Nat) (t : ValType)
  | write (address : Nat) (part : ByteArray)
  | store (address n value : Nat)
  | storeValue (address : Nat) (v : Value)
  | fill (address : Nat) (b : UInt8) (n : Nat)
  | copy (target source n : Nat)

/-- An operation that only answers that it is done. -/
def acknowledged (op : Op Unit) : Op Answer := (fun _ => .done) <$> op

def Access.perform : Access → Op Answer
  | grow delta => fun m => .ok (.pages (m.grow delta).1) (m.grow delta).2
  | read address n => .bytes <$> Memory.read address n
  | load address n => .number <$> Memory.load address n
  | loadValue address t => .value <$> Memory.loadValue address t
  | write address part => acknowledged (Memory.write address part)
  | store address n value => acknowledged (Memory.store address n value)
  | storeValue address v => acknowledged (Memory.storeValue address v)
  | fill address b n => acknowledged (Memory.fill address b n)
  | copy target source n => acknowledged (Memory.copy target source n)

/-- The memory after each of some accesses. -/
def states : List Access → Memory → List Memory
  | [], _ => []
  | access :: rest, m => stateAfter access.perform m :: states rest (stateAfter access.perform m)

end Memory

/-! ### Maps -/

/-- A number of pages, and the byte at each address. -/
structure PageMap where
  pages : Nat
  byteAt : Nat → UInt8

namespace PageMap

/-- An operation on a map. -/
abbrev Op : Type → Type := EStateM Trap PageMap

def zeros (pages : Nat) : PageMap := ⟨pages, fun _ => 0⟩

/-- The bytes from an address on. -/
def bytes (p : PageMap) : (address n : Nat) → List UInt8
  | _, 0 => []
  | address, n + 1 => p.byteAt address :: p.bytes (address + 1) n

/-- The number that the bytes from an address on are the digits of, least significant first. -/
def number (p : PageMap) : (address n : Nat) → Nat
  | _, 0 => 0
  | address, n + 1 => (p.byteAt address).toNat + 256 * p.number (address + 1) n

/-- A digit of a number to the base of 256. -/
def digit (value i : Nat) : UInt8 := (value / 256 ^ i).toUInt8

/-- A range that does not lie in the pages is not looked at. -/
def look (address n : Nat) (answer : PageMap → Memory.Answer) : Op Memory.Answer := fun p =>
  if p.pages * pageSize < address + n then .error (.outOfBounds .memory address) p else .ok (answer p) p

/-- Bytes are put in a range that ends in the pages there may be, and there are as many pages as it needs from then on.
    After an empty range there are as many as are reported. -/
def put (limit reported address n : Nat) (b : Nat → UInt8) : Op Memory.Answer := fun p =>
  if limit * pageSize < address + n then .error (.outOfBounds .memory address) p
  else .ok .done {
    pages := if n = 0 then reported else max p.pages (pagesFor (address + n))
    byteAt := fun i => if address ≤ i ∧ i < address + n then b (i - address) else p.byteAt i }

/-- What an access does to a map that may have `limit` pages. With the access comes the number of pages that are reported
    after it. -/
def perform (limit : Nat) : Memory.Access × Nat → Op Memory.Answer
  | (.grow delta, _) => fun p =>
    if limit < p.pages + delta then .ok (.pages none) p
    else .ok (.pages (some p.pages)) { p with pages := p.pages + delta }
  | (.read address n, _) => look address n fun p => .bytes (p.bytes address n).toByteArray
  | (.load address n, _) => look address n fun p => .number (p.number address n)
  | (.loadValue address t, _) => look address t.size fun p => .value (.ofNat t (p.number address t.size))
  | (.write address part, reported) => put limit reported address part.size fun i => part[i]?.getD 0
  | (.store address n value, reported) => put limit reported address n (digit value)
  | (.storeValue address v, reported) => put limit reported address v.type.size (digit v.toNat)
  | (.fill address b n, reported) => put limit reported address n fun _ => b
  | (.copy target source n, reported) => fun p =>
    if p.pages * pageSize < source + n then .error (.outOfBounds .memory source) p
    else put limit reported target n (fun i => p.byteAt (source + i)) p

variable {p : PageMap}

theorem length_bytes (address n : Nat) : (p.bytes address n).length = n := by
  induction n generalizing address with
  | zero => rfl
  | succ n ih => rw [bytes, List.length_cons, ih]

theorem getElem_bytes {address n i : Nat} (h : i < (p.bytes address n).length) :
    (p.bytes address n)[i] = p.byteAt (address + i) := by
  induction n generalizing address i with
  | zero => exact absurd h (Nat.not_lt_zero i)
  | succ n ih =>
    cases i with
    | zero => rfl
    | succ i => exact (ih _).trans (congrArg p.byteAt (by omega))

theorem littleEndian_bytes (address n : Nat) :
    Reader.littleEndian (p.bytes address n).toByteArray = p.number address n := by
  induction n generalizing address with
  | zero => rfl
  | succ n ih => rw [bytes, Reader.littleEndian_cons, ih, number]

theorem getElem?_littleEndian {n value i : Nat} (h : i < n) :
    (Writer.littleEndian n value)[i]? = some (digit value i) := by
  induction n generalizing value i with
  | zero => exact absurd h (Nat.not_lt_zero i)
  | succ n ih =>
    cases i with
    | zero => simp [Writer.littleEndian, digit]
    | succ i =>
      rw [Writer.littleEndian, List.getElem?_cons_succ, ih (Nat.lt_of_succ_lt_succ h), digit, digit, Nat.div_div_eq_div_mul,
        Nat.pow_succ, Nat.mul_comm]

end PageMap

/-! ### Memories -/

theorem getElem?_data (bytes : ByteArray) (i : Nat) : bytes[i]? = bytes.data[i]? := by
  by_cases inside : i < bytes.size
  · rw [getElem?_pos bytes i inside, getElem?_pos bytes.data i inside]
    rfl
  · rw [getElem?_neg bytes i inside, getElem?_neg bytes.data i inside]

theorem getElem?_toByteArray (bytes : List UInt8) (i : Nat) : bytes.toByteArray[i]? = bytes[i]? := by
  rw [getElem?_data, List.data_toByteArray, List.getElem?_toArray]

namespace Memory
variable {m m' : Memory}

/-- The byte at an address, and zero behind the end. -/
def byteAt (m : Memory) (i : Nat) : UInt8 := m.bytes[i]?.getD 0

/-- The map that a memory is. -/
def pageMap (m : Memory) : PageMap := ⟨m.pages, m.byteAt⟩

theorem getElem?_appendPages (bytes : ByteArray) (n i : Nat) : (appendPages bytes n)[i]?.getD 0 = bytes[i]?.getD 0 := by
  induction n generalizing bytes with
  | zero => rfl
  | succ n ih =>
    rw [appendPages, ih, getElem?_data, getElem?_data, ByteArray.data_append, Array.getElem?_append]
    split
    · rfl
    · rename_i behind
      rw [getElem?_neg bytes.data i behind, zeroPage, Array.getElem?_replicate]
      split <;> rfl

/-- New pages are zero. -/
theorem byteAt_extendTo (pages i : Nat) : (m.extendTo pages).byteAt i = m.byteAt i := getElem?_appendPages ..

theorem pages_extendTo (pages : Nat) (m : Memory) : (m.extendTo pages).pages = max m.pages pages := by
  show pagesFor (m.extendTo pages).bytes.size = max (pagesFor m.bytes.size) pages
  rw [size_extendTo]
  unfold pagesFor pageSize
  omega

theorem extendTo_of_le {pages : Nat} (h : pages ≤ m.pages) : m.extendTo pages = m := by
  have enough : pages - pagesFor m.bytes.size = 0 := Nat.sub_eq_zero_of_le h
  show (⟨appendPages m.bytes (pages - pagesFor m.bytes.size), m.limits, m.name⟩ : Memory) = m
  rw [enough]
  rfl

theorem byteAt_overwrite {address i : Nat} {part : ByteArray} (inside : address + part.size ≤ m.bytes.size) :
    (m.overwrite address part).byteAt i =
      if address ≤ i ∧ i < address + part.size then part[i - address]?.getD 0 else m.byteAt i := by
  show (part.copySlice 0 m.bytes address part.size false)[i]?.getD 0 = if _ then _ else m.bytes[i]?.getD 0
  have front : min address m.bytes.size = address := Nat.min_eq_left (by omega)
  rw [ByteArray.copySlice_eq_append, Nat.zero_add, ByteArray.extract_zero_size]
  simp only [getElem?_data, ByteArray.data_append, ByteArray.data_extract, Array.getElem?_append, Array.getElem?_extract,
    Array.size_append, Array.size_extract, ByteArray.size_data, Nat.sub_zero, Nat.min_self, Nat.zero_add, front]
  by_cases before : i < address
  · rw [if_pos (by omega), if_pos before, if_pos before, if_neg (by omega)]
  by_cases within : i < address + part.size
  · rw [if_pos within, if_neg before, if_pos ⟨Nat.not_lt.mp before, within⟩]
  have outside : ¬(address ≤ i ∧ i < address + part.size) := fun between => within between.2
  rw [if_neg within, if_neg outside]
  split
  · rw [show address + part.size + (i - (address + part.size)) = i by omega]
  · rw [getElem?_neg m.bytes.data i (show ¬i < m.bytes.size by omega)]

/-- A memory of whole pages has room within its limit. -/
theorem Sized.reserve_eq (sized : m.Sized) (address n : Nat) : reserve address n m =
    if m.pageLimit * pageSize < address + n then .error (.outOfBounds .memory address) m
    else .ok () (m.extendTo (pagesFor (address + n))) := by
  have bounded := sized.bounded
  have most : m.pageLimit * pageSize ≤ maxPages * pageSize := Nat.mul_le_mul_right _ (Nat.min_le_right ..)
  have addresses : maxPages * pageSize < addressLimit := by decide
  unfold reserve
  by_cases beyond : m.pageLimit * pageSize < address + n
  · have more : m.pageLimit < pagesFor (address + n) := Nat.not_le.mp (mt Segment.pagesFor_le.mp (Nat.not_le.mpr beyond))
    rw [if_pos beyond, if_neg (show ¬address + n ≤ m.bytes.size by omega), if_pos more, ite_self]
  · have fits : pagesFor (address + n) ≤ m.pageLimit := Segment.pagesFor_le.mpr (Nat.not_lt.mp beyond)
    rw [if_neg beyond, if_neg (by omega), if_neg (Nat.not_lt.mpr fits)]
    split
    · rename_i inside
      rw [extendTo_of_le (Segment.pagesFor_le.mpr (inside.trans_eq sized.pages.symm))]
    · rfl

/-- The memory after bytes have been written to it. -/
def written (address : Nat) (part : ByteArray) (m : Memory) : Memory :=
  (m.extendTo (pagesFor (address + part.size))).overwrite address part

theorem Sized.write_eq (sized : m.Sized) (address : Nat) (part : ByteArray) : write address part m =
    if m.pageLimit * pageSize < address + part.size then .error (.outOfBounds .memory address) m
    else .ok () (m.written address part) := by
  unfold write
  rw [sized.reserve_eq]
  by_cases beyond : m.pageLimit * pageSize < address + part.size
  · rw [if_pos beyond, if_pos beyond]
  · rw [if_neg beyond, if_neg beyond]
    rfl

/-- What is read is what is in the map, as far as the memory goes. -/
theorem read_of_near {address n : Nat} (near : address + n < addressLimit) (m : Memory) : read address n m =
    if m.bytes.size < address + n then .error (.outOfBounds .memory address) m
    else .ok (m.pageMap.bytes address n).toByteArray m := by
  unfold read
  by_cases beyond : m.bytes.size < address + n
  · rw [if_pos beyond, if_neg (by omega)]
  · rw [if_neg beyond, if_pos (by omega)]
    congr 1
    refine ByteArray.ext_getElem ?_ fun i hi hi' => ?_
    · rw [ByteArray.size_extract, List.size_toByteArray, PageMap.length_bytes]
      omega
    · rw [ByteArray.size_extract] at hi
      rw [ByteArray.getElem_extract, List.getElem_toByteArray, PageMap.getElem_bytes]
      show _ = m.bytes[address + i]?.getD 0
      rw [getElem?_pos m.bytes (address + i) (by omega), Option.getD_some]

theorem Sized.read_eq (sized : m.Sized) (address n : Nat) : read address n m =
    if m.pages * pageSize < address + n then .error (.outOfBounds .memory address) m
    else .ok (m.pageMap.bytes address n).toByteArray m := by
  have size : m.pages * pageSize = m.bytes.size := sized.pages
  have bounded := sized.bounded
  have most : m.pageLimit * pageSize ≤ maxPages * pageSize := Nat.mul_le_mul_right _ (Nat.min_le_right ..)
  have addresses : maxPages * pageSize < addressLimit := by decide
  rw [size]
  by_cases near : address + n < addressLimit
  · exact read_of_near near m
  · unfold read
    rw [if_neg (fun h => near h.1), if_pos (by omega)]

/-- What is added to whole pages makes room up to any address. -/
theorem le_size_extendTo (whole : m.pages * pageSize = m.bytes.size) (stop : Nat) :
    stop ≤ (m.extendTo (pagesFor stop)).bytes.size := by
  have enough : stop ≤ pagesFor stop * pageSize := Segment.pagesFor_le.mp (Nat.le_refl _)
  have filled : pagesFor m.bytes.size * pageSize = m.bytes.size := whole
  rw [size_extendTo]
  omega

theorem byteAt_written {address i : Nat} {part : ByteArray} (whole : m.pages * pageSize = m.bytes.size) :
    (m.written address part).byteAt i =
      if address ≤ i ∧ i < address + part.size then part[i - address]?.getD 0 else m.byteAt i := by
  rw [written, byteAt_overwrite (le_size_extendTo whole _), byteAt_extendTo]

/-- Writing adds the pages that the end of the written range needs. -/
theorem pages_written (address : Nat) (part : ByteArray) (m : Memory) :
    (m.written address part).pages = max m.pages (pagesFor (address + part.size)) := by
  rw [← pages_extendTo]
  show pagesFor (m.written address part).bytes.size = pagesFor (m.extendTo _).bytes.size
  rw [written, size_overwrite, size_extendTo]
  unfold pagesFor pageSize
  omega

/-! ### The answers -/

/-- An answer made of the bytes that are read is told of the map. -/
theorem Sized.read_look (sized : m.Sized) {address n : Nat} (answer : ByteArray → Answer) (told : PageMap → Answer)
    (same : answer (m.pageMap.bytes address n).toByteArray = told m.pageMap) :
    mapState pageMap ((answer <$> read address n : Op Answer) m) = PageMap.look address n told m.pageMap := by
  show mapState pageMap (EStateM.map answer (read address n) m) = if m.pages * pageSize < address + n then _ else _
  rw [EStateM.map, sized.read_eq]
  by_cases beyond : m.pages * pageSize < address + n
  · rw [if_pos beyond, if_pos beyond]
    rfl
  · rw [if_neg beyond, if_neg beyond, ← same]
    rfl

/-- An operation that comes to writing bytes puts them in the map. -/
theorem Sized.write_put (sized : m.Sized) (op : Op Unit) {address n : Nat} {part : ByteArray} (b : Nat → UInt8)
    (writes : op m = write address part m) (size : part.size = n) (same : ∀ i < n, part[i]?.getD 0 = b i) :
    mapState pageMap (acknowledged op m) =
      PageMap.put m.pageLimit (stateAfter (acknowledged op) m).pages address n b m.pageMap := by
  subst size
  have wrote : acknowledged op m = EStateM.map (fun _ => Answer.done) op m := rfl
  rw [EStateM.map, writes, sized.write_eq] at wrote
  unfold PageMap.put
  by_cases beyond : m.pageLimit * pageSize < address + part.size
  · rw [if_pos beyond] at wrote ⊢
    rw [wrote]
    rfl
  rw [if_neg beyond] at wrote ⊢
  rw [stateAfter_ok wrote, wrote, mapState, pageMap]
  congr 2
  · by_cases empty : part.size = 0
    · rw [if_pos empty]
    · rw [if_neg empty, pages_written]
      rfl
  · funext i
    rw [byteAt_written sized.pages]
    split
    · exact same _ (by omega)
    · rfl

theorem Sized.store_put (sized : m.Sized) (address n value : Nat) :
    mapState pageMap (acknowledged (store address n value) m) =
      PageMap.put m.pageLimit (stateAfter (acknowledged (store address n value)) m).pages address n (PageMap.digit value)
        m.pageMap := by
  refine sized.write_put _ _ rfl ?_ fun i inside => ?_
  · rw [List.size_toByteArray, Writer.length_littleEndian]
  · rw [getElem?_toByteArray, PageMap.getElem?_littleEndian inside, Option.getD_some]

theorem Sized.fill_put (sized : m.Sized) (address : Nat) (b : UInt8) (n : Nat) :
    mapState pageMap (acknowledged (fill address b n) m) =
      PageMap.put m.pageLimit (stateAfter (acknowledged (fill address b n)) m).pages address n (fun _ => b) m.pageMap := by
  refine sized.write_put _ _ (congrFun (fill_eq_write address b n) m) Array.size_replicate fun i inside => ?_
  rw [getElem?_data, Array.getElem?_replicate, if_pos inside, Option.getD_some]

/-- The bytes are taken from where they are before any of them is written. -/
theorem Sized.copy_eq (sized : m.Sized) (target source n : Nat) : copy target source n m =
    if m.pages * pageSize < source + n then .error (.outOfBounds .memory source) m
    else write target (m.pageMap.bytes source n).toByteArray m := by
  have read := sized.read_eq source n
  unfold copy
  by_cases beyond : m.pages * pageSize < source + n
  · rw [if_pos beyond] at read ⊢
    exact bind_error read
  · rw [if_neg beyond] at read ⊢
    exact bind_ok read

theorem Sized.copy_put (sized : m.Sized) (target source n : Nat) :
    mapState pageMap (acknowledged (copy target source n) m) =
      PageMap.perform m.pageLimit (.copy target source n, (stateAfter (acknowledged (copy target source n)) m).pages)
        m.pageMap := by
  have copied := sized.copy_eq target source n
  show _ = if m.pages * pageSize < source + n then _ else _
  by_cases beyond : m.pages * pageSize < source + n
  · rw [if_pos beyond] at copied ⊢
    show mapState pageMap (EStateM.map _ (copy target source n) m) = _
    rw [EStateM.map, copied]
    rfl
  · rw [if_neg beyond] at copied ⊢
    refine sized.write_put _ _ copied ?_ fun i inside => ?_
    · rw [List.size_toByteArray, PageMap.length_bytes]
    · rw [getElem?_toByteArray, getElem?_pos _ i (by rwa [PageMap.length_bytes]), PageMap.getElem_bytes]
      rfl

theorem perform_grow (delta reported : Nat) (m : Memory) :
    mapState pageMap ((Access.grow delta).perform m) = PageMap.perform m.pageLimit (.grow delta, reported) m.pageMap := by
  show mapState pageMap (.ok (Answer.pages (m.grow delta).1) (m.grow delta).2) =
    if m.pageLimit < m.pages + delta then _ else _
  rw [grow_eq]
  by_cases beyond : m.pageLimit < m.pages + delta
  · rw [if_pos beyond, if_pos beyond]
    rfl
  · rw [if_neg beyond, if_neg beyond, mapState, pageMap, pages_extendTo, Nat.max_eq_right (Nat.le_add_right ..)]
    congr 2
    exact funext fun i => byteAt_extendTo _ i

/-- An access to a memory does to its map what it is to do to a map. -/
theorem Sized.perform_eq (sized : m.Sized) (access : Access) : mapState pageMap (access.perform m) =
    PageMap.perform m.pageLimit (access, (stateAfter access.perform m).pages) m.pageMap := by
  cases access with
  | grow delta => exact perform_grow delta _ m
  | read address n => exact sized.read_look .bytes (fun p => .bytes (p.bytes address n).toByteArray) rfl
  | load address n =>
    show mapState pageMap ((.number <$> Reader.littleEndian <$> read address n : Op Answer) m) = _
    rw [Functor.map_map]
    exact sized.read_look (fun part => .number (Reader.littleEndian part)) (fun p => .number (p.number address n))
      (congrArg Answer.number (PageMap.littleEndian_bytes ..))
  | loadValue address t =>
    show mapState pageMap ((.value <$> Value.ofNat t <$> Reader.littleEndian <$> read address t.size : Op Answer) m) = _
    rw [Functor.map_map, Functor.map_map]
    exact sized.read_look (fun part => .value (.ofNat t (Reader.littleEndian part)))
      (fun p => .value (.ofNat t (p.number address t.size)))
      (congrArg (Answer.value <| .ofNat t ·) (PageMap.littleEndian_bytes ..))
  | write address part => exact sized.write_put _ _ rfl rfl fun _ _ => rfl
  | store address n value => exact sized.store_put address n value
  | storeValue address v => exact sized.store_put address v.type.size v.toNat
  | fill address b n => exact sized.fill_put address b n
  | copy target source n => exact sized.copy_put target source n

/-! ### One access after another -/

theorem Writes.maintains {α : Type} {op : Op α} (h : Writes op) (r : Memory) : Maintains r.Extends op := by
  refine .of_cases (fun s a t before done => before.trans ?_) fun s e t before failed => ?_
  · have after := h s
    rwa [done] at after
  · have after := h s
    rw [failed] at after
    rwa [show t = s from after]

theorem Reads.maintains {α : Type} {op : Op α} (h : Reads op) (r : Memory) : Maintains r.Extends op :=
  .of_after fun s before => by rwa [show stateAfter op s = s from (h s).after rfl]

theorem extends_grow (delta : Nat) (m : Memory) : m.Extends (m.grow delta).2 := by
  rw [grow_eq]
  by_cases beyond : m.pageLimit < m.pages + delta
  · rw [if_pos beyond]
    exact .refl m
  · rw [if_neg beyond]
    exact extendTo_extends (Nat.not_lt.mp beyond)

/-- No access takes pages away, or adds more than there may be. -/
theorem Access.perform_maintains (access : Access) (r : Memory) : Maintains r.Extends access.perform := by
  cases access with
  | grow delta =>
    refine .of_after fun s before => ?_
    have grown : (grow delta).perform s = .ok (.pages (s.grow delta).1) (s.grow delta).2 := rfl
    rw [stateAfter_ok grown]
    exact before.trans (extends_grow delta s)
  | read address n => exact ((read_reads address n).maintains r).map _
  | load address n => exact ((load_reads address n).maintains r).map _
  | loadValue address t => exact (((load_reads address t.size).maintains r).map _).map _
  | write address part => exact ((write_writes address part).maintains r).map _
  | store address n value => exact ((store_writes address n value).maintains r).map _
  | storeValue address v => exact ((store_writes address v.type.size v.toNat).maintains r).map _
  | fill address b n => exact ((fill_writes address b n).maintains r).map _
  | copy target source n => exact ((copy_writes target source n).maintains r).map _

theorem perform_extends (access : Access) (m : Memory) : m.Extends (stateAfter access.perform m) :=
  (access.perform_maintains m).after (.refl m)

theorem states_sized (sized : m.Sized) (accesses : List Access) : ∀ m' ∈ states accesses m, m'.Sized := by
  induction accesses generalizing m with
  | nil => exact fun m' among => absurd among List.not_mem_nil
  | cons access rest ih =>
    have after := (perform_extends access m).sized sized
    intro m' among
    rcases List.mem_cons.mp among with rfl | among
    · exact after
    · exact ih after m' among

/-- The induction is on the accesses. What a map has to be told of an access is the number of pages after it. -/
theorem Sized.results_eq (sized : m.Sized) (accesses : List Access) :
    (results Access.perform accesses m).map (mapState pageMap) =
      results (PageMap.perform m.pageLimit) (accesses.zip ((states accesses m).map Memory.pages)) m.pageMap := by
  induction accesses generalizing m with
  | nil => rfl
  | cons access rest ih =>
    have extended := perform_extends access m
    have first := sized.perform_eq access
    have later := ih (extended.sized sized)
    rw [pageLimit_congr extended.limits, ← stateAfter_of_mapState first] at later
    rw [results, List.map_cons, first, later]
    rfl

theorem size_new (limits : Limits) : (new limits).bytes.size = leastPages limits * pageSize := by
  rw [new_eq, size_holding, Segment.pagesWith, List.foldl_nil]

theorem new_sized {limits : Limits} (valid : limits.Valid) : (new limits).Sized := by
  refine ⟨?_, ?_⟩
  · rw [size_new]
    exact Nat.dvd_mul_left ..
  · rw [size_new]
    exact Nat.mul_le_mul_right _ (leastPages_le valid)

theorem pages_new (limits : Limits) : (new limits).pages = leastPages limits := by
  rw [Memory.pages, size_new, Segment.pagesFor_pages]

theorem new_pageMap (limits : Limits) : (new limits).pageMap = .zeros (leastPages limits) := by
  rw [pageMap, pages_new]
  refine congrArg (PageMap.mk _) (funext fun i => ?_)
  exact (getElem?_appendPages ..).trans rfl

/-- A new memory answers any sequence of accesses as a map of zeros does, and is after each of them what the map is. -/
theorem new_refines_pageMap {limits : Limits} (valid : limits.Valid) (accesses : List Access) :
    (results Access.perform accesses (new limits)).map (mapState pageMap) =
        results (PageMap.perform (mostPages limits))
          (accesses.zip ((states accesses (new limits)).map Memory.pages)) (.zeros (leastPages limits)) ∧
      ∀ m ∈ states accesses (new limits), m.bytes.size = m.pages * pageSize := by
  have sized := new_sized valid
  refine ⟨?_, fun m among => (states_sized sized accesses m among).pages.symm⟩
  rw [← new_pageMap]
  exact sized.results_eq accesses

namespace AcrossPages

/-- A number is stored across the end of the only page. -/
def accesses : List Access := [.store 65535 2 513, .load 65534 3, .grow 1]

def stored : PageMap := ⟨2, fun i => if 65535 ≤ i ∧ i < 65537 then PageMap.digit 513 (i - 65535) else 0⟩

theorem results_zeros (b c d : Nat) :
    results (PageMap.perform 2) [(.store 65535 2 513, b), (.load 65534 3, c), (.grow 1, d)] (.zeros 1) =
      [.ok .done stored, .ok (.number 131328) stored, .ok (.pages none) stored] := by
  have first : PageMap.perform 2 (.store 65535 2 513, b) (.zeros 1) = .ok .done stored := by
    simp [PageMap.perform, PageMap.put, PageMap.zeros, pagesFor, pageSize, stored]
  have second : PageMap.perform 2 (.load 65534 3, c) stored = .ok (.number 131328) stored := by
    simp [PageMap.perform, PageMap.look, PageMap.number, PageMap.digit, pageSize, stored]
  have third : PageMap.perform 2 (.grow 1, d) stored = .ok (.pages none) stored := by
    simp [PageMap.perform, stored]
  rw [results, first, stateAfter_ok first, results, second, stateAfter_ok second, results, third]
  rfl

end AcrossPages

open AcrossPages in
/-- A memory of one page grows to two as a number is stored across its end, and not to three. -/
theorem new_refines_pageMap_across : Limits.Valid ⟨1, some 2⟩ ∧
    (results Access.perform accesses (new ⟨1, some 2⟩)).map (mapState pageMap) =
      [.ok .done stored, .ok (.number 131328) stored, .ok (.pages none) stored] := by
  have valid : Limits.Valid ⟨1, some 2⟩ := by
    rintro max ⟨⟩
    decide
  exact ⟨valid, (new_refines_pageMap valid accesses).1.trans (results_zeros _ _ _)⟩

end Memory
end Wasm
