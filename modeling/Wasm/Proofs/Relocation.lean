import Wasm.Proofs.Locality
import Wasm.Proofs.Numbers

/-! Where bytes stand does not matter to the readers of the binary format. Behind other bytes a reader does what it does
    without them: it gives the same value or fails for the same cause, and all positions, those of errors too, are further
    on by the bytes before. So an error in a payload that is read as an input of its own is told, moved by the start of the
    payload, at the place in the file. -/

namespace Wasm
namespace Reader
open Decoder
variable {α β : Type}

/-- An input that ends so far below the bound of positions that no count leads past it, as every slice of memory does. -/
def Addressable (data : ByteArray) : Prop := data.size + 2 ^ 32 ≤ addressLimit

instance (data : ByteArray) : Decidable (Addressable data) := inferInstanceAs (Decidable (_ ≤ _))

/-- An outcome in an input that starts `base` bytes earlier. -/
def moved (base : Nat) (shift : α → α) : EStateM.Result ReadError Nat α → EStateM.Result ReadError Nat α
  | .ok a next => .ok (shift a) (next + base)
  | .error e stop => .error (e.shift base) (stop + base)

/-- The second reader does behind some bytes what the first one does without them. -/
structure Relocates (before : ByteArray) (shift : α → α) (r r' : Reader α) : Prop where
  same : ∀ ⦃data : ByteArray⦄ ⦃pos : Nat⦄, Addressable (before ++ data) → pos ≤ data.size →
    r' (before ++ data) (pos + before.size) = moved before.size shift (r data pos)
  forward : Forward r

variable {before : ByteArray} {shift : α → α}

/-! ### Readers put together -/

namespace Relocates
variable {r r' : Reader α} {f f' : α → Reader β} {t : β → β}

theorem pure (a : α) : Relocates before shift (Pure.pure a) (Pure.pure (shift a)) := ⟨fun _ _ _ _ => rfl, .pure a⟩

theorem value (a : α) : Relocates before id (Pure.pure a) (Pure.pure a) := pure a

theorem throw (e : ReadError) : Relocates before shift (MonadExcept.throw e) (MonadExcept.throw (e.shift before.size)) :=
  ⟨fun _ _ _ _ => rfl, .throw e⟩

theorem reject (rule : FormatRule) (offset : Nat) :
    Relocates before shift (Reader.reject rule offset) (Reader.reject rule (offset + before.size)) := throw _

/-- Behind a reader whose values tell no position. What comes next need be known of the values only that it gives. -/
theorem bind_given {P : α → Prop} (hr : Relocates before id r r')
    (given : ∀ ⦃data : ByteArray⦄ ⦃pos a next⦄, r data pos = .ok a next → P a)
    (hf : ∀ a, P a → Relocates before t (f a) (f' a)) : Relocates before t (r >>= f) (r' >>= f') where
  same data pos fits inside := by
    have first := hr.same fits inside
    cases done : r data pos with
    | ok a mid =>
      rw [done] at first
      calc
        (r' >>= f') (before ++ data) (pos + before.size) = f' a (before ++ data) (mid + before.size) := bind_of_ok first
        _ = moved before.size t (f a data mid) := (hf a (given done)).same fits ((hr.forward done).2 inside)
        _ = moved before.size t ((r >>= f) data pos) := by rw [bind_of_ok done]
    | error e stop =>
      rw [done] at first
      calc
        (r' >>= f') (before ++ data) (pos + before.size) = .error (e.shift before.size) (stop + before.size) :=
          bind_of_error first
        _ = moved before.size t ((r >>= f) data pos) := by rw [bind_of_error done]; rfl
  forward data pos b next h := by
    obtain ⟨a, mid, first, second⟩ := bind_ok_iff.mp h
    have before := hr.forward first
    have after := (hf a (given first)).forward second
    exact ⟨Nat.le_trans before.1 after.1, after.2 ∘ before.2⟩

theorem bind (hr : Relocates before id r r') (hf : ∀ a, Relocates before t (f a) (f' a)) :
    Relocates before t (r >>= f) (r' >>= f') :=
  hr.bind_given (P := fun _ => True) (fun _ _ _ _ _ => trivial) fun a _ => hf a

/-- Positions are further on. -/
theorem position {f f' : Nat → Reader β} (hf : ∀ pos, Relocates before t (f pos) (f' (pos + before.size))) :
    Relocates before t (Reader.position >>= f) (Reader.position >>= f') where
  same _ pos fits inside := (hf pos).same fits inside
  forward := position_forward.bind fun pos => (hf pos).forward

theorem map (f : α → β) (hr : Relocates before id r r') : Relocates before id (f <$> r) (f <$> r') := by
  rw [map_eq_pure_bind, map_eq_pure_bind]
  exact hr.bind fun a => value (f a)

end Relocates

/-! ### Bytes -/

theorem getElem_behind (before : ByteArray) {data : ByteArray} {pos : Nat} (inside : pos < data.size) :
    ∃ there : pos + before.size < (before ++ data).size, (before ++ data)[pos + before.size] = data[pos] := by
  have there : pos + before.size < (before ++ data).size := by rw [ByteArray.size_append]; omega
  refine ⟨there, ?_⟩
  rw [ByteArray.getElem_append_right (Nat.le_add_left _ _)]
  simp

theorem size_behind {data : ByteArray} {pos : Nat} : (before ++ data).size ≤ pos + before.size ↔ data.size ≤ pos := by
  rw [ByteArray.size_append, Nat.add_comm pos, Nat.add_le_add_iff_left]

theorem extract_behind (data : ByteArray) (pos n : Nat) :
    (before ++ data).extract (pos + before.size) (pos + before.size + n) = data.extract pos (pos + n) := by
  rw [Nat.add_right_comm, Nat.add_comm pos, Nat.add_comm (pos + n), ByteArray.extract_append_size_add]

theorem byte_relocates : Relocates before id byte byte where
  same data pos _ _ := by
    rcases Nat.lt_or_ge pos data.size with inside | outside
    · obtain ⟨there, same⟩ := getElem_behind before inside
      rw [byte_eq_ok.mpr ⟨inside, rfl, rfl⟩, byte_eq_ok.mpr ⟨there, same, rfl⟩, Nat.add_right_comm]
      rfl
    · rw [Leb128.byte_end outside, Leb128.byte_end (size_behind.mpr outside)]
      rfl
  forward := byte_forward

theorem peek_relocates : Relocates before id peek peek where
  same data pos _ _ := by
    rcases Nat.lt_or_ge pos data.size with inside | outside
    · obtain ⟨there, same⟩ := getElem_behind before inside
      rw [peek_eq_ok.mpr ⟨inside, rfl, rfl⟩, peek_eq_ok.mpr ⟨there, same, rfl⟩]
      rfl
    · rw [peek_end outside, peek_end (size_behind.mpr outside)]
      rfl
  forward := peek_forward

theorem remaining_relocates : Relocates before id remaining remaining where
  same data pos _ _ := by
    have left : (before ++ data).size - (pos + before.size) = data.size - pos := by
      rw [ByteArray.size_append, Nat.add_comm pos, Nat.add_sub_add_left]
    show EStateM.Result.ok ((before ++ data).size - (pos + before.size)) _ = .ok (data.size - pos) _
    rw [left]
  forward := remaining_forward

theorem bytes_short {n : Nat} {data : ByteArray} {pos : Nat} (room : pos + n < addressLimit) (short : data.size < pos + n) :
    bytes n data pos = .error (.unexpectedEnd pos) pos := by
  have failed : peekBytes n data pos = .error (.unexpectedEnd pos) pos := by
    rw [peekBytes, if_neg (Nat.not_le.mpr room), if_neg (Nat.not_le.mpr short)]
  rw [bytes, failed]

/-- A count of bytes does not lead past the bound of positions. -/
theorem bytes_relocates {n : Nat} (small : n < 2 ^ 32) : Relocates before id (bytes n) (bytes n) where
  same data pos fits inside := by
    have room : before.size + data.size + 2 ^ 32 ≤ addressLimit := by simpa [Addressable] using fits
    rcases Nat.lt_or_ge data.size (pos + n) with short | enough
    · have there : (before ++ data).size < pos + before.size + n := by rw [ByteArray.size_append]; omega
      rw [bytes_short (by omega) short, bytes_short (by omega) there]
      rfl
    · have there : pos + before.size + n ≤ (before ++ data).size := by rw [ByteArray.size_append]; omega
      rw [bytes_eq_ok.mpr ⟨by omega, enough, rfl, rfl⟩, bytes_eq_ok.mpr ⟨by omega, there, extract_behind data pos n, rfl⟩,
        Nat.add_right_comm]
      rfl
  forward := bytes_forward n

theorem skip_relocates {n : Nat} (small : n < 2 ^ 32) : Relocates before id (skip n) (skip n) :=
  (bytes_relocates small).map _

theorem fixed_relocates {n : Nat} (small : n < 2 ^ 32) : Relocates before id (fixed n) (fixed n) :=
  (bytes_relocates small).map _

/-! ### Numbers -/

end Reader

namespace Leb128
open Reader
variable {α : Type} {before : ByteArray}

theorem overflow_relocates (bits : Nat) : Relocates before id (overflow bits : Reader α) (overflow bits) :=
  .position fun _ => .throw _

theorem tooLong_relocates (bits : Nat) : Relocates before id (tooLong bits : Reader α) (tooLong bits) :=
  .position fun _ => .throw _

theorem unsignedFrom_relocates (bits budget shift sum : Nat) :
    Relocates before id (unsignedFrom bits budget shift sum) (unsignedFrom bits budget shift sum) := by
  induction budget generalizing shift sum with
  | zero => exact tooLong_relocates bits
  | succ budget ih =>
    refine byte_relocates.bind fun b => ?_
    dsimp only
    split
    · exact overflow_relocates bits
    split
    · exact ih _ _
    split
    · exact overflow_relocates bits
    · exact .value _

theorem signedFrom_relocates (bits budget shift sum : Nat) :
    Relocates before id (signedFrom bits budget shift sum) (signedFrom bits budget shift sum) := by
  induction budget generalizing shift sum with
  | zero => exact tooLong_relocates bits
  | succ budget ih =>
    refine byte_relocates.bind fun b => ?_
    dsimp only
    split
    · exact ih _ _
    generalize (if 64 ≤ payload b then _ else _ : Int) = value
    split
    · exact .value _
    · exact overflow_relocates bits

theorem unsigned_relocates (bits : Nat) : Relocates before id (unsigned bits) (unsigned bits) :=
  unsignedFrom_relocates bits _ 0 0

theorem signed_relocates (bits : Nat) : Relocates before id (signed bits) (signed bits) :=
  signedFrom_relocates bits _ 0 0

end Leb128

namespace Reader
open Decoder
variable {α β : Type} {before : ByteArray} {item : Reader α}

theorem u32_relocates : Relocates before id u32 u32 := Leb128.unsigned_relocates 32

/-- Behind a count, which is below the bound of counts. -/
theorem u32_bind_relocates {t : β → β} {f f' : Nat → Reader β} (hf : ∀ n, n < 2 ^ 32 → Relocates before t (f n) (f' n)) :
    Relocates before t (u32 >>= f) (u32 >>= f') :=
  u32_relocates.bind_given (fun _ _ _ _ done => u32_fits done) hf

/-! ### Vectors, and inputs within -/

theorem count_relocates : Relocates before id count count := by
  refine .position fun start => u32_relocates.bind fun n => remaining_relocates.bind fun left => ?_
  split
  · exact .throw _
  · exact .value n

theorem items_relocates (h : Relocates before id item item) (n : Nat) (done : Array α) :
    Relocates before id (items item n done) (items item n done) := by
  induction n generalizing done with
  | zero => exact .value done
  | succ n ih => exact h.bind fun a => ih (done.push a)

theorem vector_relocates (h : Relocates before id item item) : Relocates before id (vector item) (vector item) :=
  count_relocates.bind fun n => items_relocates h n #[]

theorem countedBytes_relocates : Relocates before id countedBytes countedBytes :=
  u32_bind_relocates fun _ small => bytes_relocates small

/-- What is read as an input of its own has the same errors there. Its start is further on. -/
theorem within_relocates {n : Nat} (small : n < 2 ^ 32) (inner : Reader α) :
    Relocates before id (within n inner) (within n inner) := by
  refine .position fun base => (bytes_relocates small).bind fun part => ?_
  cases inner part 0 with
  | ok a next => exact .value a
  | error e stop =>
    dsimp only
    rw [← ReadError.shift_shift]
    exact .throw _

/-! ### Records -/

theorem name_relocates : Relocates before id name name := by
  refine .position fun start => countedBytes_relocates.bind fun part => ?_
  split
  · exact .value _
  · exact .throw _

theorem valType_relocates : Relocates before id valType valType := by
  refine .position fun first => byte_relocates.bind fun b => ?_
  split
  · exact .value _
  · exact .reject _ _

theorem limits_relocates : Relocates before id limits limits := by
  refine .position fun first => byte_relocates.bind fun b => ?_
  split
  · exact u32_relocates.bind fun _ => .value _
  · refine u32_relocates.bind fun least => u32_relocates.bind fun most => ?_
    split
    · exact .reject _ _
    · exact .value _
  · exact .reject _ _

theorem funcType_relocates : Relocates before id funcType funcType := by
  have types : Relocates before id (vector valType) (vector valType) := vector_relocates valType_relocates
  refine .position fun first => byte_relocates.bind fun b => ?_
  split
  · exact .reject _ _
  · exact types.bind fun _ => types.bind fun _ => .value _

theorem mutability_relocates : Relocates before id mutability mutability := by
  refine .position fun first => byte_relocates.bind fun b => ?_
  split
  · exact .value _
  · exact .value _
  · exact .reject _ _

theorem tableType_relocates : Relocates before id tableType tableType := by
  refine .position fun first => byte_relocates.bind fun b => ?_
  split
  · exact limits_relocates.map _
  · exact .reject _ _

theorem blockType_relocates : Relocates before id blockType blockType := by
  refine peek_relocates.bind fun b => ?_
  have tag : Relocates before id (skip 1) (skip 1) := skip_relocates (by decide)
  split
  · exact tag.bind fun _ => .value _
  cases ValType.ofTag? b with
  | some t => exact tag.bind fun _ => .value _
  | none =>
    refine .position fun first => (Leb128.signed_relocates 64).bind fun index => ?_
    split
    · exact .value _
    · exact .reject _ _

theorem initializer_relocates : Relocates before id initializer initializer := by
  refine .position fun first => byte_relocates.bind fun b => ?_
  split
  · exact (Leb128.signed_relocates 32).bind fun _ => .value _
  · exact (Leb128.signed_relocates 64).bind fun _ => .value _
  · exact (fixed_relocates (by decide)).bind fun _ => .value _
  · exact (fixed_relocates (by decide)).bind fun _ => .value _
  · exact u32_relocates.bind fun _ => .value _
  · exact .reject _ _

theorem constExpr_relocates : Relocates before id constExpr constExpr := by
  refine initializer_relocates.bind fun expr => .position fun last => byte_relocates.bind fun b => ?_
  split
  · exact .reject _ _
  · exact .value _

theorem importKind_relocates : Relocates before id importKind importKind := by
  refine .position fun first => byte_relocates.bind fun b => ?_
  split
  · exact u32_relocates.bind fun _ => .value _
  · exact tableType_relocates.bind fun _ => .value _
  · exact limits_relocates.bind fun _ => .value _
  · exact valType_relocates.bind fun _ => mutability_relocates.bind fun _ => .value _
  · exact .reject _ _

theorem importEntry_relocates : Relocates before id importEntry importEntry :=
  name_relocates.bind fun _ => name_relocates.bind fun _ => importKind_relocates.bind fun _ => .value _

theorem globalEntry_relocates : Relocates before id globalEntry globalEntry :=
  valType_relocates.bind fun _ => mutability_relocates.bind fun _ => constExpr_relocates.bind fun _ => .value _

theorem exportEntry_relocates : Relocates before id exportEntry exportEntry := by
  refine name_relocates.bind fun field => .position fun first => byte_relocates.bind fun b => ?_
  cases ExportKind.ofTag? b.toNat with
  | none => exact .reject _ _
  | some kind => exact u32_relocates.bind fun _ => .value _

theorem codeEntry_relocates : Relocates before id codeEntry codeEntry :=
  u32_bind_relocates fun _ small => within_relocates small codeBody

theorem dataMode_relocates : Relocates before id dataMode dataMode := by
  refine .position fun first => u32_relocates.bind fun flags => ?_
  split
  · exact constExpr_relocates.bind fun _ => .value _
  · exact .value _
  · exact u32_relocates.bind fun _ => constExpr_relocates.bind fun _ => .value _
  · exact .reject _ _

theorem dataEntry_relocates : Relocates before id dataEntry dataEntry :=
  dataMode_relocates.bind fun _ => countedBytes_relocates.bind fun _ => .value _

/-- The payload of a section is further on. -/
theorem sectionHeader_relocates : Relocates before (SectionHeader.shift before.size) sectionHeader sectionHeader := by
  refine .position fun first => byte_relocates.bind fun b => ?_
  cases SectionKind.ofId? b.toNat with
  | none => exact .reject _ _
  | some kind => exact u32_relocates.bind fun size => .position fun start => .pure _

theorem InFormat.relocates {α : Type} {r : Reader α} {shift : Nat → α → α} (h : InFormat r shift) (before : ByteArray) :
    Relocates before (shift before.size) r r := by
  induction h with
  | byte => exact byte_relocates
  | unsigned w => exact Leb128.unsigned_relocates w.bits
  | signed w => exact Leb128.signed_relocates w.bits
  | countedBytes => exact countedBytes_relocates
  | name => exact name_relocates
  | vector _ ih => exact vector_relocates ih
  | valType => exact valType_relocates
  | limits => exact limits_relocates
  | funcType => exact funcType_relocates
  | mutability => exact mutability_relocates
  | tableType => exact tableType_relocates
  | constExpr => exact constExpr_relocates
  | blockType => exact blockType_relocates
  | memArg => exact u32_relocates.bind fun _ => u32_relocates.bind fun _ => .value _
  | importEntry => exact importEntry_relocates
  | globalEntry => exact globalEntry_relocates
  | exportEntry => exact exportEntry_relocates
  | localGroup => exact u32_relocates.bind fun _ => valType_relocates.bind fun _ => .value _
  | codeEntry => exact codeEntry_relocates
  | dataEntry => exact dataEntry_relocates
  | sectionHeader => exact sectionHeader_relocates
  | typeSection => exact vector_relocates funcType_relocates
  | importSection => exact vector_relocates importEntry_relocates
  | functionSection => exact vector_relocates u32_relocates
  | memorySection => exact vector_relocates limits_relocates
  | globalSection => exact vector_relocates globalEntry_relocates
  | exportSection => exact vector_relocates exportEntry_relocates
  | startSection => exact u32_relocates
  | dataCountSection => exact u32_relocates
  | codeSection => exact vector_relocates codeEntry_relocates
  | dataSection => exact vector_relocates dataEntry_relocates

/-! ### Positions -/

section
variable {r : Reader α} {shift : Nat → α → α}

theorem split_at {data : ByteArray} {pos : Nat} (inside : pos ≤ data.size) :
    data.extract 0 pos ++ data.extract pos data.size = data := by
  rw [ByteArray.extract_append_extract]
  simp [inside]

/-- Only the bytes that are left count. -/
theorem InFormat.eq_moved (h : InFormat r shift) {data : ByteArray} {pos : Nat} (fits : Addressable data)
    (inside : pos ≤ data.size) : r data pos = moved pos (shift pos) (r (data.extract pos data.size) 0) := by
  have size : (data.extract 0 pos).size = pos := by simpa using inside
  have fits' : Addressable (data.extract 0 pos ++ data.extract pos data.size) := by rwa [split_at inside]
  have behind := (h.relocates (data.extract 0 pos)).same fits' (Nat.zero_le (data.extract pos data.size).size)
  rwa [split_at inside, size, Nat.zero_add] at behind

/-- A reader to which it does not matter where its bytes stand, nor what is before them and behind them. The values it
    gives may tell positions, which are shifted. -/
structure Relocatable (r : Reader α) (shift : Nat → α → α) : Prop where
  /-- Some bytes are read, and none outside. -/
  consumes : r.Consumes
  /-- What has been read gives the same in every input that has it, at every position. -/
  given : ∀ ⦃data : ByteArray⦄ ⦃pos : Nat⦄ ⦃a : α⦄ ⦃next : Nat⦄, pos ≤ data.size → r data pos = .ok a next →
    ∃ b, a = shift pos b ∧ ∀ ⦃data' : ByteArray⦄ ⦃pos' : Nat⦄, data'.size < addressLimit →
      pos' + (next - pos) ≤ data'.size → data'.extract pos' (pos' + (next - pos)) = data.extract pos next →
      r data' pos' = .ok (shift pos' b) (pos' + (next - pos))
  /-- The bytes that are left where it fails make it fail for the same cause in every input that ends with them. -/
  failed : ∀ ⦃data : ByteArray⦄ ⦃pos : Nat⦄ ⦃e : ReadError⦄ ⦃stop : Nat⦄, Addressable data → pos ≤ data.size →
    r data pos = .error e stop → ∃ (cause : ReadError) (n : Nat), e = cause.shift pos ∧ stop = n + pos ∧
      ∀ ⦃data' : ByteArray⦄ ⦃pos' : Nat⦄, Addressable data' → pos' ≤ data'.size →
        data'.extract pos' data'.size = data.extract pos data.size →
        r data' pos' = .error (cause.shift pos') (n + pos')
  /-- A payload as an input of its own, set back to its start, is the payload in the file that ends with it. -/
  rebased : ∀ ⦃data : ByteArray⦄ ⦃base n : Nat⦄, Addressable data → base + n ≤ data.size →
    r (data.extract 0 (base + n)) base = moved base (shift base) (r (data.extract base (base + n)) 0)
  /-- A module that is read tells an error in a payload at its offset in the file. -/
  told : ∀ ⦃data : ByteArray⦄ ⦃base n : Nat⦄ ⦃e : ReadError⦄ ⦃stop : Nat⦄, Addressable data → base + n ≤ data.size →
    r (data.extract 0 (base + n)) base = .error e stop → ∀ {σ : Type} (l : Loading σ),
      Load.read base r (data.extract base (base + n)) 0 l = .error (.malformed e.offset (.read e)) l

theorem moved_eq_error {base stop : Nat} {e : ReadError} {f : α → α} {outcome : EStateM.Result ReadError Nat α} :
    moved base f outcome = .error e stop ↔ ∃ cause n, outcome = .error cause n ∧ e = cause.shift base ∧ stop = n + base := by
  constructor
  · intro h
    cases outcome with
    | ok a next => cases h
    | error cause n =>
      cases h
      exact ⟨cause, n, rfl, rfl, rfl⟩
  · rintro ⟨cause, n, rfl, rfl, rfl⟩
    rfl

theorem Local.given (h : Local r shift) {data : ByteArray} {pos next : Nat} {a : α} (inside : pos ≤ data.size)
    (done : r data pos = .ok a next) : ∃ b, a = shift pos b ∧ ∀ ⦃data' : ByteArray⦄ ⦃pos' : Nat⦄,
      data'.size < addressLimit → pos' + (next - pos) ≤ data'.size →
      data'.extract pos' (pos' + (next - pos)) = data.extract pos next →
      r data' pos' = .ok (shift pos' b) (pos' + (next - pos)) := by
  obtain ⟨word, b, -, occurs, rfl, value, same⟩ := h inside done
  refine ⟨b, value, fun data' pos' small room equal => ?_⟩
  rw [Nat.add_sub_cancel_left] at room equal ⊢
  rw [occurs.extract] at equal
  have there := Occurs.of_extract room
  rw [equal, List.data_toByteArray, List.toList_toArray] at there
  exact same small there

theorem InFormat.rebased (h : InFormat r shift) {data : ByteArray} {base n : Nat} (fits : Addressable data)
    (room : base + n ≤ data.size) :
    r (data.extract 0 (base + n)) base = moved base (shift base) (r (data.extract base (base + n)) 0) := by
  have size : (data.extract 0 (base + n)).size = base + n := by simpa using room
  have fits' : Addressable (data.extract 0 (base + n)) := by
    rw [Addressable, size]
    exact Nat.le_trans (Nat.add_le_add_right room _) fits
  have left : (data.extract 0 (base + n)).extract base (base + n) = data.extract base (base + n) := by
    rw [ByteArray.extract_extract]
    simp
  have inside : base ≤ (data.extract 0 (base + n)).size := by
    rw [size]
    exact Nat.le_add_right base n
  have whole := h.eq_moved fits' inside
  rwa [size, left] at whole

/-- The readers of the binary format can be moved. -/
theorem InFormat.relocatable (h : InFormat r shift) : Relocatable r shift where
  consumes := h.isLocal.consumes
  given _ _ _ _ inside done := h.isLocal.given inside done
  failed data pos e stop fits inside wrong := by
    rw [h.eq_moved fits inside] at wrong
    obtain ⟨cause, n, there, rfl, rfl⟩ := moved_eq_error.mp wrong
    refine ⟨cause, n, rfl, rfl, fun data' pos' fits' inside' equal => ?_⟩
    rw [h.eq_moved fits' inside', equal, there]
    rfl
  rebased _ _ _ fits room := h.rebased fits room
  told data base n e stop fits room wrong _ l := by
    rw [h.rebased fits room] at wrong
    obtain ⟨cause, n', there, rfl, rfl⟩ := moved_eq_error.mp wrong
    rw [Load.read, there, ReadError.offset_shift, Nat.add_comm cause.offset]
    rfl

/-- A section of code in a file. The only body in it has locals of a type that there is not. -/
def Misread.file : ByteArray := ⟨#[0, 0, 0, 0, 10, 5, 1, 3, 1, 1, 0, 7, 7]⟩

/-- The body and the section are inputs of their own. The offset that is told is the one in the file. -/
theorem relocatable_misread :
    Load.read 6 codeSection (Misread.file.extract 6 (6 + 5)) 0 ({} : Loading Unit) =
      .error (.malformed 10 (.read (.malformed .valueType 10))) {} :=
  have inside : 6 + 5 ≤ Misread.file.size := by decide
  (InFormat.relocatable .codeSection).told (by decide) inside (by rfl) {}

end
end Reader
end Wasm
