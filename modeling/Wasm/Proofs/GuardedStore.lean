import Wasm.Proofs.Guarded
import Wasm.Proofs.Growth
import Wasm.Proofs.Operations

/-! The operations on stacks, memories and stores under guard. Each of them asks beforehand whether there is what it is
    going to take or replace, so there are no faults from any state that there may be. -/

namespace Wasm
variable {α β : Type}

/-! ### Stacks -/

namespace Stack

/-- The values on top are a slice of the stack. -/
def top! (n : Nat) : Guarded Trap Stack (Array Value) := fun s =>
  if n ≤ s.values.size then do
    let vs ← Checked.slice s.values (s.values.size - n) s.values.size
    return .ok vs s
  else return .error .stackUnderflow s

/-- The stack is split where the values on top begin. -/
def popMany! (n : Nat) : Guarded Trap Stack (Array Value) := fun s =>
  if n ≤ s.values.size then do
    let vs ← Checked.slice s.values (s.values.size - n) s.values.size
    return .ok vs ⟨s.values.shrink (s.values.size - n)⟩
  else return .error .stackUnderflow s

/-- The values taken out are drained from the stack. -/
def remove! (first last : Nat) : Guarded Trap Stack Unit := fun s =>
  if first ≤ last ∧ last ≤ s.values.size then do
    let _ ← Checked.slice s.values first last
    return .ok () ⟨s.values.shrink first ++ s.values.extract last s.values.size⟩
  else return .error .stackUnderflow s

def settle! (height arity : Nat) : Guarded Trap Stack Unit := fun s =>
  if height + arity ≤ s.values.size then remove! height (s.values.size - arity) s
  else return .error .stackUnderflow s

/-- There is nothing that a stack has to have. -/
abbrev Any : Stack → Prop := fun _ => True

theorem any_maintained (op : Op α) : Maintains Any op := .of_after fun _ _ => trivial

theorem top_guarded (n : Nat) : Guards Any (top! n) (top n) := by
  refine fun s _ => .of_faultless (.of_eq ?_) trivial
  unfold top! top top?
  split
  · rw [Checked.slice_ok ⟨Nat.sub_le .., Nat.le_refl _⟩]
    rfl
  · rfl

theorem popMany_guarded (n : Nat) : Guards Any (popMany! n) (popMany n) := by
  refine fun s _ => .of_faultless (.of_eq ?_) trivial
  unfold popMany! popMany
  dsimp only
  split
  · rw [Checked.slice_ok ⟨Nat.sub_le .., Nat.le_refl _⟩]
    rfl
  · rfl

theorem remove_guarded (first last : Nat) : Guards Any (remove! first last) (remove first last) := by
  refine fun s _ => .of_faultless (.of_eq ?_) trivial
  unfold remove! remove
  dsimp only
  split
  · rw [Checked.slice_ok ‹_›]
    rfl
  · rfl

theorem settle_guarded (height arity : Nat) : Guards Any (settle! height arity) (settle height arity) := by
  refine fun s _ => .of_faultless ?_ trivial
  unfold settle! settle
  split
  · exact (remove_guarded height (s.values.size - arity) s trivial).faultless
  · exact .ok _

/-- What may be asked of a stack. -/
inductive Call
  | push (v : Value)
  | pushMany (vs : Array Value)
  | pop
  | popInt (w : Width)
  | popFloat (w : Width)
  | get (index : Nat)
  | set (index : Nat) (v : Value)
  | top (n : Nat)
  | popMany (n : Nat)
  | truncate (height : Nat)
  | remove (first last : Nat)

def Call.perform : Call → Op Unit
  | push v => Stack.push v
  | pushMany vs => Stack.pushMany vs
  | pop => discard Stack.pop
  | popInt w => discard (Stack.popInt w)
  | popFloat w => discard (Stack.popFloat w)
  | get index => discard (Stack.get index)
  | set index v => Stack.set index v
  | top n => discard (Stack.top n)
  | popMany n => discard (Stack.popMany n)
  | truncate height => Stack.truncate height
  | remove first last => Stack.remove first last

def Call.perform! : Call → Guarded Trap Stack Unit
  | top n => do
    let _ ← Stack.top! n
    return
  | popMany n => do
    let _ ← Stack.popMany! n
    return
  | remove first last => Stack.remove! first last
  -- The others look at one entry at most, if it is there.
  | call => call.perform

theorem Call.guarded (call : Call) : Guards Any call.perform! call.perform := by
  cases call with
  | top n => exact (top_guarded n).discard
  | popMany n => exact (popMany_guarded n).discard
  | remove first last => exact remove_guarded first last
  | _ => exact .lift (any_maintained _)

end Stack

/-! ### Memories -/

namespace Memory
variable {m m' : Memory}

/-- A memory consists of whole pages. -/
def Whole (m : Memory) : Prop := pageSize ∣ m.bytes.size

/-- The size in bytes has to fit. -/
def new! (limits : Limits) : Checked Memory := do
  let _ ← Checked.mul 64 (min limits.min maxPages) pageSize
  return Memory.new limits

def extendTo! (pages : Nat) (m : Memory) : Checked Memory := do
  let _ ← Checked.mul 64 pages pageSize
  return m.extendTo pages

def grow! (delta : Nat) : Guarded Trap Memory (Option Nat) := fun m =>
  if m.pageLimit < m.pages + delta then return .ok none m
  else do
    let grown ← extendTo! (m.pages + delta) m
    return .ok (some m.pages) grown

def reserve! (address n : Nat) : Guarded Trap Memory Unit := fun m =>
  if addressLimit ≤ address + n then return .error (.outOfBounds .memory address) m
  else if address + n ≤ m.bytes.size then return .ok () m
  else if m.pageLimit < pagesFor (address + n) then return .error (.outOfBounds .memory address) m
  else do
    let extended ← extendTo! (pagesFor (address + n)) m
    return .ok () extended

/-- The bytes are put in the place of a slice of the same length. -/
def overwrite! (address : Nat) (part : ByteArray) : Guarded Trap Memory Unit := fun m => do
  let stop ← Checked.add 64 address part.size
  let old ← Checked.sliceBytes m.bytes address stop
  Checked.require (old.size = part.size)
  return .ok () (m.overwrite address part)

def write! (address : Nat) (part : ByteArray) : Guarded Trap Memory Unit := do
  reserve! address part.size
  overwrite! address part

/-- The bytes are copied to an array of `n`. -/
def load! (address n : Nat) : Guarded Trap Memory Nat := do
  let part ← read address n
  Checked.require (part.size = n)
  return Reader.littleEndian part

def store! (address n value : Nat) : Guarded Trap Memory Unit :=
  write! address (Writer.littleEndian n value).toByteArray

def loadValue! (address : Nat) (t : ValType) : Guarded Trap Memory Value := do
  return Value.ofNat t (← load! address t.size)

def storeValue! (address : Nat) (v : Value) : Guarded Trap Memory Unit := store! address v.type.size v.toNat

def fill! (address : Nat) (b : UInt8) (n : Nat) : Guarded Trap Memory Unit := do
  reserve! address n
  overwrite! address ⟨Array.replicate n b⟩

/-- The bytes that are at `source` are copied within the memory, which has to have room for them at `target`. -/
def copyWithin! (target source : Nat) (part : ByteArray) : Guarded Trap Memory Unit := fun m => do
  let stop ← Checked.add 64 source part.size
  let _ ← Checked.sliceBytes m.bytes source stop
  let last ← Checked.sub m.bytes.size part.size
  Checked.require (target ≤ last)
  return .ok () (m.overwrite target part)

def copy! (target source n : Nat) : Guarded Trap Memory Unit := do
  let part ← read source n
  reserve! target n
  copyWithin! target source part

/-- What may be asked of a memory. A new memory may also be put in its place. -/
inductive Call
  | renew (limits : Limits)
  | grow (delta : Nat)
  | read (address n : Nat)
  | load (address n : Nat)
  | store (address : Nat) (part : ByteArray)
  | loadValue (address : Nat) (t : ValType)
  | storeValue (address : Nat) (v : Value)
  | fill (address : Nat) (b : UInt8) (n : Nat)
  | copy (target source n : Nat)

def Call.perform : Call → Op Unit
  | renew limits => set (Memory.new limits)
  | grow delta => fun m => .ok () (m.grow delta).2
  | read address n => discard (Memory.read address n)
  | load address n => discard (Memory.load address n)
  | store address part => Memory.write address part
  | loadValue address t => discard (Memory.loadValue address t)
  | storeValue address v => Memory.storeValue address v
  | fill address b n => Memory.fill address b n
  | copy target source n => Memory.copy target source n

def Call.perform! : Call → Guarded Trap Memory Unit
  | renew limits => fun _ => do
    let m ← Memory.new! limits
    return .ok () m
  | grow delta => do
    let _ ← Memory.grow! delta
    return
  | read address n => (discard (Memory.read address n) : Op Unit)
  | load address n => do
    let _ ← Memory.load! address n
    return
  | store address part => Memory.write! address part
  | loadValue address t => do
    let _ ← Memory.loadValue! address t
    return
  | storeValue address v => Memory.storeValue! address v
  | fill address b n => Memory.fill! address b n
  | copy target source n => Memory.copy! target source n

theorem new_whole (limits : Limits) : (Memory.new limits).Whole := by
  show pageSize ∣ (appendPages .empty _).size
  rw [size_appendPages]
  exact Nat.dvd_add (Nat.dvd_zero _) (Nat.dvd_mul_left ..)

theorem new_checked (limits : Limits) : new! limits = .ok (Memory.new limits) := by
  have most : min limits.min maxPages * pageSize ≤ maxPages * pageSize := Nat.mul_le_mul_right _ (Nat.min_le_right ..)
  unfold new!
  rw [Checked.mul_ok (Nat.lt_of_le_of_lt most (by decide))]
  rfl

theorem extendTo_whole (pages : Nat) (whole : m.Whole) : (m.extendTo pages).Whole := by
  show pageSize ∣ _
  rw [size_extendTo, ← Nat.sub_mul]
  exact Nat.dvd_add whole (Nat.dvd_mul_left ..)

theorem extendTo_checked {pages : Nat} (allowed : pages ≤ m.pageLimit) : extendTo! pages m = .ok (m.extendTo pages) := by
  have most : pages * pageSize ≤ maxPages * pageSize :=
    Nat.mul_le_mul_right _ (Nat.le_trans allowed (Nat.min_le_right ..))
  unfold extendTo!
  rw [Checked.mul_ok (Nat.lt_of_le_of_lt most (by decide))]
  rfl

theorem grow_checked (delta : Nat) (m : Memory) : grow! delta m = .ok (.ok (m.grow delta).1 (m.grow delta).2) := by
  unfold grow!
  rw [grow_eq]
  by_cases beyond : m.pageLimit < m.pages + delta
  · rw [if_pos beyond, if_pos beyond]
    rfl
  · rw [if_neg beyond, if_neg beyond, extendTo_checked (Nat.not_lt.mp beyond)]
    rfl

theorem grow_whole (delta : Nat) (whole : m.Whole) : (m.grow delta).2.Whole := by
  rw [grow_eq]
  split
  · exact whole
  · exact extendTo_whole _ whole

theorem reserve_checked (address n : Nat) (m : Memory) : reserve! address n m = .ok (reserve address n m) := by
  unfold reserve! reserve
  split
  · rfl
  · split
    · rfl
    · split
      · rfl
      · rw [extendTo_checked (Nat.not_lt.mp ‹_›)]
        rfl

/-- What is there once room has been made. -/
structure Room (m : Memory) (address n : Nat) (m' : Memory) : Prop where
  whole : m'.Whole
  inside : address + n ≤ m'.bytes.size
  addressed : address + n < 1 <<< 64
  more : m.bytes.size ≤ m'.bytes.size

theorem room_of_reserve {address n : Nat} (whole : m.Whole) (h : reserve address n m = .ok () m') : Room m address n m' := by
  have more := (reserve_eq_ok h).1.size
  unfold reserve at h
  split at h
  · cases h
  · rename_i addressed
    split at h
    · cases h
      exact ⟨whole, ‹_›, Nat.not_le.mp addressed, more⟩
    · split at h <;> cases h
      refine ⟨extendTo_whole _ whole, ?_, Nat.not_le.mp addressed, more⟩
      obtain ⟨pages, size⟩ := whole
      have filled : pagesFor m.bytes.size * pageSize = m.bytes.size := by
        rw [size, Nat.mul_comm pageSize, Segment.pagesFor_pages]
      have room : address + n ≤ pagesFor (address + n) * pageSize := Segment.pagesFor_le.mp (Nat.le_refl _)
      rw [size_extendTo]
      omega

theorem Room.overwrite {address : Nat} {part : ByteArray} (h : Room m address part.size m') :
    (m'.overwrite address part).Whole := by
  have inside := h.inside
  have same : (m'.overwrite address part).bytes.size = m'.bytes.size := by
    rw [size_overwrite]
    omega
  show pageSize ∣ _
  rw [same]
  exact h.whole

theorem overwrite_checked {address : Nat} {part : ByteArray} (h : Room m address part.size m') :
    overwrite! address part m' = .ok (.ok () (m'.overwrite address part)) := by
  have old : (m'.bytes.extract address (address + part.size)).size = part.size := by
    have := h.inside
    rw [ByteArray.size_extract]
    omega
  unfold overwrite!
  rw [Checked.add_ok h.addressed]
  show (Checked.sliceBytes _ _ _ >>= _) = _
  rw [Checked.sliceBytes_ok ⟨Nat.le_add_right .., h.inside⟩]
  show (Checked.require _ >>= _) = _
  rw [Checked.require_ok old]
  rfl

theorem reserve_guarded (address n : Nat) : Guards Whole (reserve! address n) (reserve address n) := by
  refine fun m whole => .of_faultless (.of_eq (reserve_checked address n m)) ?_
  cases reserved : reserve address n m with
  | ok u m' =>
    rw [stateAfter_ok reserved]
    exact (room_of_reserve whole reserved).whole
  | error e m' =>
    rw [stateAfter_error reserved, reserve_eq_error reserved]
    exact whole

/-- The pages that the memory is extended by hold what is to be written. -/
theorem write_eq_bind (address : Nat) (part : ByteArray) :
    write address part = reserve address part.size >>= fun _ m => .ok () (m.overwrite address part) := by
  funext m
  show _ = EStateM.bind _ _ m
  unfold write EStateM.bind
  cases reserve address part.size m <;> rfl

/-- Bytes are put in the place of others once room has been made for them. -/
theorem replace_guarded {put! : Guarded Trap Memory Unit} {address : Nat} {part : ByteArray} (whole : m.Whole)
    (guarded : ∀ m', Room m address part.size m' → put! m' = .ok (.ok () (m'.overwrite address part))) :
    GivesAt Whole Anything m (reserve! address part.size >>= fun _ => put!) (write address part) := by
  rw [write_eq_bind]
  refine (reserve_guarded address part.size m whole).bind fun _ m' _ _ reserved => ?_
  have room := room_of_reserve whole reserved
  exact .of_faultless (.of_eq (guarded m' room)) room.overwrite

theorem write_guarded (address : Nat) (part : ByteArray) : Guards Whole (write! address part) (write address part) :=
  fun _ whole => replace_guarded whole fun _ room => overwrite_checked room

theorem fill_guarded (address : Nat) (b : UInt8) (n : Nat) : Guards Whole (fill! address b n) (fill address b n) := by
  have size : (ByteArray.mk (Array.replicate n b)).size = n := Array.size_replicate
  rw [fill_eq_write]
  have replaced := write_guarded address ⟨Array.replicate n b⟩
  unfold write! at replaced
  rwa [size] at replaced

/-- What is read of a memory. -/
theorem read_eq_ok {address n : Nat} {part : ByteArray} (h : read address n m = .ok part m') :
    m' = m ∧ part = m.bytes.extract address (address + n) ∧ part.size = n ∧ address + n ≤ m.bytes.size ∧
      address + n < 1 <<< 64 := by
  unfold read at h
  split at h
  · rename_i inside
    cases h
    refine ⟨rfl, rfl, ?_, inside.2, inside.1⟩
    rw [ByteArray.size_extract]
    omega
  · cases h

theorem read_maintains (address n : Nat) : Maintains Whole (read address n) :=
  .of_after fun m whole => by
    have same := (read_reads address n m).after rfl
    rwa [same]

/-- What has been read has the length that was asked for. -/
theorem load_guarded (address n : Nat) : Guards Whole (load! address n) (load address n) := by
  unfold load
  rw [map_eq_pure_bind]
  refine fun m whole => (Guards.lift (read_maintains address n) m whole).bind fun part m' whole _ ran => ?_
  exact .check (.of_eq (Checked.require_ok (read_eq_ok ran).2.2.1)) (Guards.pure _ m' whole)

theorem loadValue_guarded (address : Nat) (t : ValType) : Guards Whole (loadValue! address t) (loadValue address t) :=
  (load_guarded address t.size).map _

theorem store_guarded (address n value : Nat) : Guards Whole (store! address n value) (store address n value) :=
  write_guarded _ _

/-- Room for the copy does not make the memory any smaller, so what is copied is still there. -/
theorem copy_guarded (target source n : Nat) : Guards Whole (copy! target source n) (copy target source n) := by
  refine fun m whole => (Guards.lift (read_maintains source n) m whole).bind fun part m' whole _ ran => ?_
  obtain ⟨rfl, -, rfl, inside, addressed⟩ := read_eq_ok ran
  refine replace_guarded whole fun m'' room => ?_
  have more := room.more
  have inside' := room.inside
  unfold copyWithin!
  rw [Checked.add_ok addressed]
  show (Checked.sliceBytes _ _ _ >>= _) = _
  rw [Checked.sliceBytes_ok ⟨Nat.le_add_right .., Nat.le_trans inside more⟩]
  show (Checked.sub _ _ >>= _) = _
  rw [Checked.sub_ok (by omega)]
  show (Checked.require _ >>= _) = _
  rw [Checked.require_ok (by omega)]
  rfl

theorem renew_guarded (limits : Limits) : Guards Whole (Call.perform! (.renew limits)) (Call.perform (.renew limits)) := by
  refine fun m _ => .of_faultless (.of_eq ?_) (new_whole limits)
  show (new! limits >>= _) = _
  rw [new_checked]
  rfl

theorem grow_guarded {delta : Nat} {op : Op (Option Nat)} (same : ∀ m, op m = .ok (m.grow delta).1 (m.grow delta).2) :
    Guards Whole (grow! delta) op := by
  refine fun m whole => .of_faultless (.of_eq ?_) ?_
  · rw [same, grow_checked]
  · rw [stateAfter_ok (same m)]
    exact grow_whole delta whole

theorem Call.guarded (call : Call) : Guards Whole call.perform! call.perform := by
  cases call with
  | renew limits => exact renew_guarded limits
  | grow delta =>
    have grown : Guards Whole (grow! delta) fun m => .ok (m.grow delta).1 (m.grow delta).2 := grow_guarded fun _ => rfl
    exact grown.discard
  | read address n => exact .lift (read_maintains address n).discard
  | load address n => exact (load_guarded address n).discard
  | store address part => exact write_guarded address part
  | loadValue address t => exact (loadValue_guarded address t).discard
  | storeValue address v => exact store_guarded address v.type.size v.toNat
  | fill address b n => exact fill_guarded address b n
  | copy target source n => exact copy_guarded target source n

end Memory

/-! ### Stores -/

namespace Checked

/-- The count of effects after one more. There is no way to count further than it goes. -/
def count (effects : Nat) : Checked Nat := if effects + 1 < 1 <<< 64 then .ok (effects + 1) else .error .refused

theorem count_faultless (effects : Nat) : Faultless (count effects) (effects + 1) := by
  unfold count
  split
  · exact .ok _
  · exact .inr rfl

end Checked

namespace Store

/-- What a store has to have: whole pages in its memories, and a limit to the depth of calls that can be counted to. -/
structure Sturdy (s : Store) : Prop where
  whole : ∀ m ∈ s.memories, m.Whole
  limit : s.options.maxCallDepth < addressLimit

def onStack! (op : Guarded Trap Stack α) : Guarded Trap Store α := fun s => do
  let result ← op s.stack
  return mapState (fun stack => { s with stack }) result

def onMemory! (index : Nat) (op : Guarded Trap Memory α) : Guarded Trap Store α := fun s =>
  match s.memories[index]? with
  | none => return .error (.missingMemory index) s
  | some m => do
    let result ← op m
    return mapState (fun m => { s with memories := s.memories.setIfInBounds index m }) result

def countEffect! : Guarded Trap Store Unit := fun s => do
  let effects ← Checked.count s.effects
  return .ok () { s with effects }

def setGlobal! (index : Nat) (v : Value) : Guarded Trap Store Unit := fun s =>
  match s.globals[index]? with
  | none => return .error (.unknownGlobal index) s
  | some g =>
    if g.isConstant then return .error (.constantGlobal index) s
    else if g.value.type ≠ v.type then return .error (.typeMismatch g.value.type v.type) s
    else do
      let effects ← Checked.count s.effects
      return .ok () { s with globals := s.globals.setIfInBounds index { g with value := v }, effects }

variable {s : Store}

/-- What a store has to have does not depend on the stack, the globals, the data segments and the counts. -/
theorem Sturdy.congr {t : Store} (h : s.Sturdy) (memories : t.memories = s.memories) (options : t.options = s.options) :
    t.Sturdy := ⟨memories ▸ h.whole, options ▸ h.limit⟩

theorem onStack_eq (op : Stack.Op α) (s : Store) :
    onStack op s = mapState (fun stack => { s with stack }) (op s.stack) := by
  unfold onStack
  dsimp only
  cases op s.stack <;> rfl

theorem onStack_guarded {g : Guarded Trap Stack α} {op : Stack.Op α} (h : Guards Stack.Any g op) :
    Guards Sturdy (onStack! g) (onStack op) := fun s sturdy =>
  (h s.stack trivial).part _ rfl (onStack_eq op s) fun _ _ => sturdy.congr rfl rfl

theorem Sturdy.setMemory {m : Memory} (h : s.Sturdy) (index : Nat) (whole : m.Whole) :
    Sturdy { s with memories := s.memories.setIfInBounds index m } := by
  refine ⟨fun m' there => ?_, h.limit⟩
  rcases Array.mem_or_eq_of_mem_setIfInBounds there with there | rfl
  · exact h.whole m' there
  · exact whole

theorem onMemory_guarded {index : Nat} {g : Guarded Trap Memory α} {op : Memory.Op α} (h : Guards Memory.Whole g op) :
    Guards Sturdy (onMemory! index g) (onMemory index op) := by
  intro s sturdy
  cases found : s.memories[index]? with
  | none =>
    have missing := onMemory_missing op found
    have guarded : onMemory! index g s = .ok (onMemory index op s) := by
      unfold onMemory!
      rw [missing, found]
      rfl
    exact .of_faultless (.of_eq guarded) ((stateAfter_error missing).symm ▸ sturdy)
  | some m =>
    refine (h m (sturdy.whole m (Array.mem_of_getElem? found))).part _ ?_ (onMemory_eq found op) fun _ whole =>
      sturdy.setMemory index whole
    unfold onMemory!
    rw [found]

theorem countEffect_guarded : Guards Sturdy countEffect! countEffect := fun s sturdy =>
  .of_faultless ((Checked.count_faultless s.effects).bind (.ok _)) (sturdy.congr rfl rfl)

theorem setGlobal_maintains (index : Nat) (v : Value) : Maintains Sturdy (setGlobal index v) := by
  refine .of_cases (fun s u t sturdy done => ?_) fun s e t sturdy failed => ?_
  · obtain ⟨g, -, -, -, rfl⟩ := setGlobal_eq_ok.mp done
    exact sturdy.congr rfl rfl
  · rwa [setGlobal_eq_error failed]

theorem setGlobal_guarded (index : Nat) (v : Value) : Guards Sturdy (setGlobal! index v) (setGlobal index v) := by
  refine fun s sturdy => .of_faultless ?_ ((setGlobal_maintains index v).after sturdy)
  unfold setGlobal! setGlobal
  cases s.globals[index]? with
  | none => exact .ok _
  | some g =>
    dsimp only
    split
    · exact .ok _
    · split
      · exact .ok _
      · exact (Checked.count_faultless s.effects).bind (.ok _)

theorem onStack_maintains (op : Stack.Op α) : Maintains Sturdy (onStack op) := by
  refine .of_cases (fun s a t sturdy done => ?_) fun s e t sturdy failed => ?_
  · obtain ⟨stack, -, rfl⟩ := onStack_eq_ok.mp done
    exact sturdy.congr rfl rfl
  · obtain ⟨stack, -, rfl⟩ := onStack_eq_error.mp failed
    exact sturdy.congr rfl rfl

theorem get_maintains : Maintains Sturdy (get : Exec Store) := fun _ h => h

/-- Nothing is asked of what only works on the stack. -/
theorem stack_guarded (op : Stack.Op α) : Guards Sturdy (liftM (onStack op)) (onStack op) := .lift (onStack_maintains op)

theorem global_maintains (index : Nat) : Maintains Sturdy (global index) := by
  refine .of_cases (fun s v t sturdy done => ?_) fun s e t sturdy failed => ?_
  · rwa [(global_eq_ok.mp done).2]
  · rwa [global_eq_error failed]

theorem segment_maintains (index offset n : Nat) : Maintains Sturdy (segment index offset n) := by
  refine .of_cases (fun s v t sturdy done => ?_) fun s e t sturdy failed => ?_
  · rwa [(segment_eq_ok.mp done).2]
  · rwa [segment_eq_error failed]

theorem dropSegment_maintains (index : Nat) : Maintains Sturdy (dropSegment index) := by
  refine .of_cases (fun s v t sturdy done => ?_) fun s e t sturdy failed => ?_
  · obtain ⟨-, rfl⟩ := dropSegment_eq_ok.mp done
    exact sturdy.congr rfl rfl
  · rwa [dropSegment_eq_error failed]

end Store
end Wasm
