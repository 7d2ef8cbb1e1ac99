import Wasm.Proofs.GuardedReader
import Wasm.Proofs.Records

/-! The records of the binary format and the instructions, read under guard. The sums on the way, of the locals of a
    function and of the offsets of errors in a part of the input, are no faults either. -/

namespace Wasm

/-! ### Records under guard -/

namespace Reader
variable {α : Type}

def u32! : GuardedReader Nat := Leb128.unsigned! 32

def count! : GuardedReader Nat := do
  let start ← position
  let n ← u32!
  if (← remaining) < n then (throw (.unexpectedEnd start) : Reader Nat) else return n

def vector! (item : GuardedReader α) : GuardedReader (Array α) := do
  let n ← count!
  items! item n #[]

def countedBytes! : GuardedReader ByteArray := do
  let n ← u32!
  bytes! n

def name! : GuardedReader String := do
  let start ← position
  let part ← countedBytes!
  match String.fromUTF8? part with
  | some s => return s
  | none => (throw (.invalidUtf8 start) : Reader String)

def within! (n : Nat) (inner : GuardedReader α) : GuardedReader α := do
  let base ← position
  let part ← bytes! n
  match ← inner part 0 with
  | .ok a _ => return a
  | .error e _ => do
    let e ← e.shift! base
    (throw e : Reader α)

def sectionHeader! : GuardedReader SectionHeader := do
  let first ← position
  let id ← byte!
  match SectionKind.ofId? id.toNat with
  | none => reject .sectionId first
  | some kind => do
    let size ← u32!
    return ⟨kind, size, ← position⟩

def valType! : GuardedReader ValType := do
  let first ← position
  match ValType.ofTag? (← byte!) with
  | some t => return t
  | none => reject .valueType first

def limits! : GuardedReader Limits := do
  let first ← position
  match (← byte!).toNat with
  | 0 => return ⟨← u32!, none⟩
  | 1 => do
    let min ← u32!
    let max ← u32!
    if max < min then reject .limitsOrder first else return ⟨min, some max⟩
  | _ => reject .limitsFlag first

def funcType! : GuardedReader FuncType := do
  let first ← position
  if (← byte!) ≠ 0x60 then reject .functionTypeForm first
  else do
    let params ← vector! valType!
    let results ← vector! valType!
    return ⟨params.toList, results.toList⟩

def mutability! : GuardedReader Bool := do
  let first ← position
  match (← byte!).toNat with
  | 0 => return false
  | 1 => return true
  | _ => reject .mutability first

def tableType! : GuardedReader Unit := do
  let first ← position
  let b ← byte!
  if b = 0x70 ∨ b = 0x6F then do
    let _ ← limits!
    return
  else reject .referenceType first

def blockType! : GuardedReader BlockType := do
  let b ← peek
  if b = 0x40 then do
    skip! 1
    return .empty
  else match ValType.ofTag? b with
    | some t => do
      skip! 1
      return .result t
    | none => do
      let first ← position
      let index ← Leb128.signed! 64
      if 0 ≤ index ∧ index < (1 <<< 32 : Nat) then return .signature index.toNat else reject .blockType first

def initializer! : GuardedReader ConstExpr := do
  let first ← position
  match (← byte!).toNat with
  | 0x41 => return .value (.i32 (.ofInt 32 (← Leb128.signed! 32)))
  | 0x42 => return .value (.i64 (.ofInt 64 (← Leb128.signed! 64)))
  | 0x43 => return .value (.ofNat .f32 (← fixed! 4))
  | 0x44 => return .value (.ofNat .f64 (← fixed! 8))
  | 0x23 => return .globalGet (← u32!)
  | _ => reject .initializerOpcode first

def constExpr! : GuardedReader ConstExpr := do
  let expr ← initializer!
  let last ← position
  if (← byte!) ≠ 0x0B then reject .initializerEnd last else return expr

def importKind! : GuardedReader ImportKind := do
  let first ← position
  match (← byte!).toNat with
  | 0 => return .func (← u32!)
  | 1 => do
    tableType!
    return .table
  | 2 => return .memory (← limits!)
  | 3 => do
    let type ← valType!
    return .global type (← mutability!)
  | _ => reject .importKind first

def importEntry! : GuardedReader ImportEntry := do
  let moduleName ← name!
  let field ← name!
  return ⟨moduleName, field, ← importKind!⟩

def globalEntry! : GuardedReader GlobalEntry := do
  let type ← valType!
  let isMutable ← mutability!
  return ⟨type, isMutable, ← constExpr!⟩

def exportEntry! : GuardedReader ExportEntry := do
  let field ← name!
  let first ← position
  match ExportKind.ofTag? (← byte!).toNat with
  | none => reject .exportKind first
  | some kind => return ⟨field, kind, ← u32!⟩

def localGroup! : GuardedReader (Nat × ValType) := do
  let n ← u32!
  return (n, ← valType!)

/-- The number of locals, in a register of 64 bits. -/
def localCount! (groups : List (Nat × ValType)) (n : Nat) : Checked Nat :=
  groups.foldlM (fun n g => Checked.add 64 n g.1) n

def codeBody! : GuardedReader CodeEntry := do
  let groups ← vector! localGroup!
  let n ← localCount! groups.toList 0
  if maxLocals < n then reject .tooManyLocals 0
  else do
    let body ← bytes! (← remaining)
    return ⟨groups.toList.flatMap fun g => List.replicate g.1 g.2, body⟩

def codeEntry! : GuardedReader CodeEntry := do
  let size ← u32!
  within! size codeBody!

def dataMode! : GuardedReader DataMode := do
  let first ← position
  match ← u32! with
  | 0 => return .active 0 (← constExpr!)
  | 1 => return .passive
  | 2 => do
    let memory ← u32!
    return .active memory (← constExpr!)
  | _ => reject .dataFlags first

def dataEntry! : GuardedReader DataEntry := do
  let mode ← dataMode!
  return ⟨mode, ← countedBytes!⟩

def memArg! : GuardedReader MemArg := do
  let align ← u32!
  return ⟨align, ← u32!⟩

def constant! : ValType → GuardedReader Value
  | .i32 => return .i32 (.ofInt 32 (← Leb128.signed! 32))
  | .i64 => return .i64 (.ofInt 64 (← Leb128.signed! 64))
  | .f32 => return .ofNat .f32 (← fixed! 4)
  | .f64 => return .ofNat .f64 (← fixed! 8)

end Reader

/-! ### Instructions under guard -/

namespace Instr

def immediate! {α : Type} (r : GuardedReader α) : GuardedDecoder Trap α := fun data pos => do
  match ← r data pos with
  | .ok a pos => return .ok a pos
  | .error e pos => return .error (.binary e) pos

def readExtended! : GuardedDecoder Trap Plain := do
  let n ← immediate! Reader.u32!
  match ExtendedOp.ofNumber? n with
  | none => (throw (.unsupportedOpcode (extendedCode n)) : CodeReader Plain)
  | some (.truncateSat target source sign) => return .numeric (.truncateSat target source sign)
  | some .memoryInit => do
    let segment ← immediate! Reader.u32!
    immediate! (Reader.skip! 1)
    return .memoryInit segment
  | some .dataDrop => return .dataDrop (← immediate! Reader.u32!)
  | some .memoryCopy => do
    immediate! (Reader.skip! 1)
    immediate! (Reader.skip! 1)
    return .memoryCopy
  | some .memoryFill => do
    immediate! (Reader.skip! 1)
    return .memoryFill

def readRest! : Opcode → GuardedDecoder Trap Instr
  | .block => return .block (← immediate! Reader.blockType!)
  | .loop => return .loop (← immediate! Reader.blockType!)
  | .ifThen => return .ifThen (← immediate! Reader.blockType!)
  | .br => return .br (← immediate! Reader.u32!)
  | .brIf => return .brIf (← immediate! Reader.u32!)
  | .brTable => do
    let targets ← immediate! (Reader.vector! Reader.u32!)
    return .brTable targets (← immediate! Reader.u32!)
  | .call => return .call (← immediate! Reader.u32!)
  | .selectTyped => do
    let _ ← immediate! (Reader.vector! Reader.byte!)
    return .plain .select
  | .localGet => return .plain (.localGet (← immediate! Reader.u32!))
  | .localSet => return .plain (.localSet (← immediate! Reader.u32!))
  | .localTee => return .plain (.localTee (← immediate! Reader.u32!))
  | .globalGet => return .plain (.globalGet (← immediate! Reader.u32!))
  | .globalSet => return .plain (.globalSet (← immediate! Reader.u32!))
  | .load op => return .plain (.load op (← immediate! Reader.memArg!))
  | .store op => return .plain (.store op (← immediate! Reader.memArg!))
  | .memorySize => do
    immediate! (Reader.skip! 1)
    return .plain .memorySize
  | .memoryGrow => do
    immediate! (Reader.skip! 1)
    return .plain .memoryGrow
  | .const t => return .plain (.const (← immediate! (Reader.constant! t)))
  | .extended => return .plain (← readExtended!)
  -- The others have no immediates.
  | op => readRest op

def read! : GuardedDecoder Trap Instr := do
  let b ← immediate! Reader.byte!
  match Opcode.ofByte? b with
  | none => (throw (.unsupportedOpcode b.toNat) : CodeReader Instr)
  | some op => readRest! op

end Instr

/-! ### They are faithful -/

theorem ReadError.shift!_ok {base : Nat} {e : ReadError} (h : e.offset + base < 1 <<< 64) :
    e.shift! base = .ok (e.shift base) := by
  unfold shift!
  rw [Checked.add_ok h]
  rfl

namespace Reader
variable {α : Type} {data : ByteArray} {item! : GuardedReader α} {item : Reader α}

theorem throw_faithful {e : ReadError} (h : e.offset ≤ data.size) :
    Faithful data (liftM (throw e : Reader α)) (throw e) := Decoder.Faithful.throw h

/-- What is read is as long as it has been asked for. -/
theorem fixed_faithful (n : Nat) : Faithful data (fixed! n) (fixed n) := by
  unfold fixed
  rw [Decoder.map_eq_bind]
  refine (bytes_faithful n).bind_of fun part pos next inside read => ?_
  obtain ⟨word, ⟨size, rfl⟩, -⟩ := (bytes_recognizes n).sound read inside
  exact Decoder.Faithful.check (Checked.require_ok (by simpa using size)) (.pure _)

theorem items_faithful (h : Faithful data item! item) (n : Nat) (done : Array α) :
    Faithful data (items! item! n done) (items item n done) := by
  induction n generalizing done with
  | zero => exact .pure _
  | succ n ih => exact h.bind fun a => ih (done.push a)

/-- A part of the input is an input of its own, with its errors further on in the outer one. -/
theorem within_faithful {inner! : GuardedReader α} {inner : Reader α} (small : data.size < allocationLimit)
    (h : ∀ part : ByteArray, part.size < allocationLimit → Faithful part inner! inner) (n : Nat) :
    Faithful data (within! n inner!) (within n inner) := by
  intro pos start
  show Guarded.bind (bytes! n data) _ pos = .ok ((bytes n >>= _) data pos) ∧ _
  unfold Guarded.bind
  cases read : bytes n data pos with
  | error e last =>
    obtain ⟨same, right, inside⟩ := (bytes_faithful n).of_error start read
    rw [same, show within n inner data pos = .error e last from bind_error read,
      show (bytes n >>= _) data pos = .error e last from bind_error read]
    exact ⟨rfl, right, inside⟩
  | ok part next =>
    obtain ⟨same, inside⟩ := (bytes_faithful n).of_ok start read
    obtain ⟨-, stop, rfl, -⟩ := bytes_eq_ok.mp read
    have size : (data.extract pos (pos + n)).size = n := by
      rw [ByteArray.size_extract]
      omega
    have fits : (data.extract pos (pos + n)).size < allocationLimit := by omega
    rw [same, show within n inner data pos = _ from bind_ok read, show (bytes n >>= _) data pos = _ from bind_ok read]
    refine (?_ : Faithful data (liftM (inner! (data.extract pos (pos + n)) 0) >>= _) _) next inside
    cases ran : inner (data.extract pos (pos + n)) 0 with
    | ok a last => exact Decoder.Faithful.check ((h _ fits).of_ok (Nat.zero_le _) ran).1 (.pure a)
    | error e last =>
      obtain ⟨told, right, -⟩ := (h _ fits).of_error (Nat.zero_le _) ran
      -- An error inside the part is inside the outer input, too, so that its offset can be moved.
      have room : e.offset + pos ≤ data.size := by omega
      refine Decoder.Faithful.check told (Decoder.Faithful.check (ReadError.shift!_ok ?_) (throw_faithful ?_))
      · unfold allocationLimit at small
        omega
      · rwa [ReadError.offset_shift]

variable (small : data.size < allocationLimit)
include small

omit small in
theorem ascii_faithful (n : Nat) : Faithful data (ascii! n) (ascii n) := by
  refine position_faithful fun start inside => (bytes_faithful n).bind fun part => ?_
  split
  · exact .pure _
  · exact throw_faithful inside

theorem u32_faithful : Faithful data u32! u32 := Leb128.unsigned_faithful small 32 (by decide)

theorem count_faithful : Faithful data count! count := by
  refine position_faithful fun start inside => (u32_faithful small).bind fun n => remaining_faithful.bind fun left => ?_
  split
  · exact throw_faithful inside
  · exact .pure _

theorem vector_faithful (h : Faithful data item! item) : Faithful data (vector! item!) (vector item) :=
  (count_faithful small).bind fun n => items_faithful h n _

theorem countedBytes_faithful : Faithful data countedBytes! countedBytes := (u32_faithful small).bind bytes_faithful

theorem name_faithful : Faithful data name! name := by
  refine position_faithful fun start inside => (countedBytes_faithful small).bind fun part => ?_
  cases String.fromUTF8? part with
  | some s => exact .pure _
  | none => exact throw_faithful inside

theorem sectionHeader_faithful : Faithful data sectionHeader! sectionHeader := by
  refine position_faithful fun first inside => (byte_faithful small).bind fun id => ?_
  cases SectionKind.ofId? id.toNat with
  | none => exact reject_faithful inside
  | some kind => exact (u32_faithful small).bind fun size => position_faithful fun start _ => .pure _

theorem valType_faithful : Faithful data valType! valType := by
  refine position_faithful fun first inside => (byte_faithful small).bind fun b => ?_
  cases ValType.ofTag? b with
  | some t => exact .pure _
  | none => exact reject_faithful inside

theorem limits_faithful : Faithful data limits! limits := by
  refine position_faithful fun first inside => (byte_faithful small).bind fun b => ?_
  generalize b.toNat = tag
  match tag with
  | 0 => exact (u32_faithful small).bind fun n => .pure _
  | 1 =>
    refine (u32_faithful small).bind fun min => (u32_faithful small).bind fun max => ?_
    split
    · exact reject_faithful inside
    · exact .pure _
  | _ + 2 => exact reject_faithful inside

theorem funcType_faithful : Faithful data funcType! funcType := by
  have types := vector_faithful small (valType_faithful small)
  refine position_faithful fun first inside => (byte_faithful small).bind fun b => ?_
  split
  · exact reject_faithful inside
  · exact types.bind fun params => types.bind fun results => .pure _

theorem mutability_faithful : Faithful data mutability! mutability := by
  refine position_faithful fun first inside => (byte_faithful small).bind fun b => ?_
  generalize b.toNat = tag
  match tag with
  | 0 => exact .pure _
  | 1 => exact .pure _
  | _ + 2 => exact reject_faithful inside

theorem tableType_faithful : Faithful data tableType! tableType := by
  refine position_faithful fun first inside => (byte_faithful small).bind fun b => ?_
  split
  · exact (limits_faithful small).map
  · exact reject_faithful inside

theorem blockType_faithful : Faithful data blockType! blockType := by
  refine peek_faithful.bind fun b => ?_
  split
  · exact (skip_faithful 1).bind fun _ => .pure _
  · cases ValType.ofTag? b with
    | some t => exact (skip_faithful 1).bind fun _ => .pure _
    | none =>
      refine position_faithful fun first inside => (Leb128.signed_faithful small (.inr rfl)).bind fun index => ?_
      split
      · exact .pure _
      · exact reject_faithful inside

theorem initializer_faithful : Faithful data initializer! initializer := by
  refine position_faithful fun first inside => (byte_faithful small).bind fun b => ?_
  generalize b.toNat = code
  by_cases i32 : code = 0x41
  · subst i32
    exact (Leb128.signed_faithful small (.inl rfl)).bind fun v => .pure _
  by_cases i64 : code = 0x42
  · subst i64
    exact (Leb128.signed_faithful small (.inr rfl)).bind fun v => .pure _
  by_cases f32 : code = 0x43
  · subst f32
    exact (fixed_faithful 4).bind fun bits => .pure _
  by_cases f64 : code = 0x44
  · subst f64
    exact (fixed_faithful 8).bind fun bits => .pure _
  by_cases get : code = 0x23
  · subst get
    exact (u32_faithful small).bind fun index => .pure _
  simp only [reject_faithful inside]

theorem constExpr_faithful : Faithful data constExpr! constExpr := by
  refine (initializer_faithful small).bind fun expr => position_faithful fun last inside => ?_
  refine (byte_faithful small).bind fun b => ?_
  split
  · exact reject_faithful inside
  · exact .pure _

theorem importKind_faithful : Faithful data importKind! importKind := by
  refine position_faithful fun first inside => (byte_faithful small).bind fun b => ?_
  generalize b.toNat = tag
  match tag with
  | 0 => exact (u32_faithful small).bind fun signature => .pure _
  | 1 => exact (tableType_faithful small).bind fun _ => .pure _
  | 2 => exact (limits_faithful small).bind fun limits => .pure _
  | 3 => exact (valType_faithful small).bind fun type => (mutability_faithful small).bind fun isMutable => .pure _
  | _ + 4 => exact reject_faithful inside

theorem importEntry_faithful : Faithful data importEntry! importEntry :=
  (name_faithful small).bind fun _ => (name_faithful small).bind fun _ => (importKind_faithful small).bind fun _ => .pure _

theorem globalEntry_faithful : Faithful data globalEntry! globalEntry :=
  (valType_faithful small).bind fun _ => (mutability_faithful small).bind fun _ => (constExpr_faithful small).bind fun _ =>
    .pure _

theorem exportEntry_faithful : Faithful data exportEntry! exportEntry := by
  refine (name_faithful small).bind fun field => position_faithful fun first inside => ?_
  refine (byte_faithful small).bind fun tag => ?_
  cases ExportKind.ofTag? tag.toNat with
  | none => exact reject_faithful inside
  | some kind => exact (u32_faithful small).bind fun index => .pure _

theorem localGroup_faithful : Faithful data localGroup! localGroup :=
  (u32_faithful small).bind fun _ => (valType_faithful small).bind fun _ => .pure _

omit small in
/-- There are fewer than `2 ^ 32` groups of fewer than `2 ^ 32` locals. -/
theorem localCount_ok {groups : List (Nat × ValType)} {n : Nat} (narrow : ∀ g ∈ groups, g.1 < 2 ^ 32)
    (room : n + groups.length * 2 ^ 32 < 2 ^ 64) :
    localCount! groups n = .ok (groups.foldl (fun n g => n + g.1) n) := by
  induction groups generalizing n with
  | nil => rfl
  | cons g groups ih =>
    obtain ⟨first, others⟩ := List.forall_mem_cons.mp narrow
    rw [List.length_cons] at room
    unfold localCount!
    rw [List.foldlM_cons, Checked.add_ok (by omega)]
    exact ih others (by omega)

theorem codeBody_faithful : Faithful data codeBody! codeBody := by
  refine (vector_faithful small (localGroup_faithful small)).bind_of fun groups pos next inside read => ?_
  have recognizes := vector_recognizes localGroup_recognizes (localGroup_recognizes.proper rfl)
  obtain ⟨word, ⟨number, spelled⟩, -⟩ := recognizes.sound read inside
  have narrow : ∀ g ∈ groups.toList, g.1 < 2 ^ 32 := by
    intro g member
    obtain ⟨_, ⟨n, -⟩⟩ := spelled.mem member
    exact n.fits
  refine Decoder.Faithful.check (localCount_ok narrow ?_) ?_
  · have := number.fits
    omega
  · rw [← Array.foldl_toList]
    split
    · exact reject_faithful (Nat.zero_le _)
    · exact remaining_faithful.bind fun left => (bytes_faithful left).bind fun body => .pure _

theorem codeEntry_faithful : Faithful data codeEntry! codeEntry :=
  (u32_faithful small).bind fun size => within_faithful small (fun _ small => codeBody_faithful small) size

theorem dataMode_faithful : Faithful data dataMode! dataMode := by
  refine position_faithful fun first inside => (u32_faithful small).bind fun flags => ?_
  match flags with
  | 0 => exact (constExpr_faithful small).bind fun offset => .pure _
  | 1 => exact .pure _
  | 2 => exact (u32_faithful small).bind fun memory => (constExpr_faithful small).bind fun offset => .pure _
  | _ + 3 => exact reject_faithful inside

theorem dataEntry_faithful : Faithful data dataEntry! dataEntry :=
  (dataMode_faithful small).bind fun _ => (countedBytes_faithful small).bind fun _ => .pure _

theorem memArg_faithful : Faithful data memArg! memArg :=
  (u32_faithful small).bind fun _ => (u32_faithful small).bind fun _ => .pure _

theorem constant_faithful (t : ValType) : Faithful data (constant! t) (constant t) := by
  cases t with
  | i32 => exact (Leb128.signed_faithful small (.inl rfl)).bind fun v => .pure _
  | i64 => exact (Leb128.signed_faithful small (.inr rfl)).bind fun v => .pure _
  | f32 => exact (fixed_faithful 4).bind fun bits => .pure _
  | f64 => exact (fixed_faithful 8).bind fun bits => .pure _

end Reader

namespace Instr
variable {data : ByteArray} (small : data.size < allocationLimit)
include small

omit small in
theorem immediate_faithful {α : Type} {g : GuardedReader α} {r : Reader α} (h : Reader.Faithful data g r) :
    Decoder.Faithful data (fun _ => True) (immediate! g) (immediate r) := by
  intro pos inside
  unfold immediate! immediate
  cases read : r data pos with
  | ok a next =>
    obtain ⟨same, inside⟩ := h.of_ok inside read
    rw [same]
    exact ⟨rfl, inside⟩
  | error e last =>
    obtain ⟨same, -, inside⟩ := h.of_error inside read
    rw [same]
    exact ⟨rfl, trivial, inside⟩

theorem readExtended_faithful : Decoder.Faithful data (fun _ => True) readExtended! readExtended := by
  have number := immediate_faithful (Reader.u32_faithful small)
  have reserved := immediate_faithful (Reader.skip_faithful 1 : Reader.Faithful data _ _)
  refine number.bind fun n => ?_
  match ExtendedOp.ofNumber? n with
  | none => exact .throw trivial
  | some (.truncateSat _ _ _) => exact .pure _
  | some .memoryInit => exact number.bind fun _ => reserved.bind fun _ => .pure _
  | some .dataDrop => exact number.bind fun _ => .pure _
  | some .memoryCopy => exact reserved.bind fun _ => reserved.bind fun _ => .pure _
  | some .memoryFill => exact reserved.bind fun _ => .pure _

theorem readRest_faithful (op : Opcode) : Decoder.Faithful data (fun _ => True) (readRest! op) (readRest op) := by
  have index := immediate_faithful (Reader.u32_faithful small)
  have blockType := immediate_faithful (Reader.blockType_faithful small)
  have memArg := immediate_faithful (Reader.memArg_faithful small)
  have reserved := immediate_faithful (Reader.skip_faithful 1 : Reader.Faithful data _ _)
  have targets := immediate_faithful (Reader.vector_faithful small (Reader.u32_faithful small))
  have types := immediate_faithful (Reader.vector_faithful small (Reader.byte_faithful small))
  cases op with
  | block => exact blockType.bind fun _ => .pure _
  | loop => exact blockType.bind fun _ => .pure _
  | ifThen => exact blockType.bind fun _ => .pure _
  | br => exact index.bind fun _ => .pure _
  | brIf => exact index.bind fun _ => .pure _
  | brTable => exact targets.bind fun _ => index.bind fun _ => .pure _
  | call => exact index.bind fun _ => .pure _
  | selectTyped => exact types.discard_bind fun _ => .pure _
  | localGet => exact index.bind fun _ => .pure _
  | localSet => exact index.bind fun _ => .pure _
  | localTee => exact index.bind fun _ => .pure _
  | globalGet => exact index.bind fun _ => .pure _
  | globalSet => exact index.bind fun _ => .pure _
  | load op => exact memArg.bind fun _ => .pure _
  | store op => exact memArg.bind fun _ => .pure _
  | memorySize => exact reserved.bind fun _ => .pure _
  | memoryGrow => exact reserved.bind fun _ => .pure _
  | const t => exact (immediate_faithful (Reader.constant_faithful small t)).bind fun _ => .pure _
  | extended => exact (readExtended_faithful small).bind fun _ => .pure _
  | _ => exact .pure _

theorem read_faithful : Decoder.Faithful data (fun _ => True) read! read := by
  refine (immediate_faithful (Reader.byte_faithful small)).bind fun b => ?_
  cases Opcode.ofByte? b with
  | none => exact .throw trivial
  | some op => exact readRest_faithful small op

end Instr
end Wasm
