import Wasm.Proofs.GuardedRecords
import Wasm.Proofs.GuardedStore
import Wasm.Proofs.Container

/-! Modules loaded under guard. A section is an input of its own, which starts where it does in the module; what goes
    wrong in it is told at an offset in the module. What is counted is what has been read into vectors before. -/

namespace Wasm
variable {σ α : Type}

/-- What reads a part of a module under guard. -/
abbrev GuardedLoad (σ : Type) : Type → Type := Guarded Failure (Loading σ)

namespace Load

/-! ### Loading under guard -/

/-- The offset is told where the error is, further on. -/
def read! (base : Nat) (r : GuardedReader α) (bytes : ByteArray) (pos : Nat) : GuardedLoad σ (α × Nat) := do
  match ← r bytes pos with
  | .ok a next => return (a, next)
  | .error e _ => do
    let moved ← e.shift! base
    (refuse (base + e.offset) (.read moved) : Load σ _)

def addMemory! (limits : Limits) : GuardedLoad σ Unit := do
  let m ← Memory.new! limits
  (modify fun l => { l with store.memories := l.store.memories.push m } : Load σ Unit)

def importEntry! (resolve : Resolver σ) (base : Nat) (entry : ImportEntry) : GuardedLoad σ Unit :=
  match entry.kind with
  | .memory limits => addMemory! limits
  | _ => importEntry resolve base entry

/-- Notes where the functions that are declared start, and how many there are. -/
def noteDeclared (n : Nat) : Load σ Unit :=
  modify fun l => { l with firstDeclared := l.module.functions.size, declared := n }

/-- Gives a function its body. -/
def attachOne (base index : Nat) (entry : CodeEntry) : Load σ Unit := do
  let l ← get
  if index < l.module.functions.size then
    set { l with module.functions := l.module.functions.modify index fun f =>
      { f with locals := entry.locals, body := .code entry.body } }
  else refuse base .bodyWithoutFunction

/-- The bodies are counted on from the first function that is not imported. -/
def attach! (base first : Nat) : (count : Nat) → List CodeEntry → GuardedLoad σ Unit
  | _, [] => return
  | count, entry :: rest => do
    let index ← Checked.add 64 first count
    (attachOne base index entry : Load σ Unit)
    attach! base first (count + 1) rest

/-- How it is told that a segment does not get into its memory. -/
def segmentFailure (base memory : Nat) : Trap → Failure
  | .missingMemory _ => .malformed base (.dataMemory memory)
  | e => .trap e

/-- What comes of writing a segment. -/
def segmentResult (base memory : Nat) (l : Loading σ) :
    EStateM.Result Trap Store Unit → EStateM.Result Failure (Loading σ) Unit
  | .ok () store => .ok () { l with store }
  | .error e store => .error (segmentFailure base memory e) { l with store }

def writeSegment! (base memory offset : Nat) (bytes : ByteArray) : GuardedLoad σ Unit := fun l => do
  let result ← Store.onMemory! memory (Memory.write! offset bytes) l.store
  return segmentResult base memory l result

def dataEntry! (base : Nat) (entry : DataEntry) : GuardedLoad σ Unit := do
  match entry.mode with
  | .passive => (addData entry.bytes : Load σ Unit)
  | .active memory place => do
    match ← (initial base place : Load σ Value) with
    | .i32 offset => do
      writeSegment! base memory offset.toNat entry.bytes
      (addData .empty : Load σ Unit)
    | v => (refuse base (.dataOffset v) : Load σ Unit)

/-- The contents of a section that is not looked at. -/
def passOver! (bytes : ByteArray) : Checked Nat := do
  let _ ← Checked.sliceBytes bytes 0 bytes.size
  return bytes.size

def payload! (resolve : Resolver σ) (base : Nat) (bytes : ByteArray) : SectionKind → GuardedLoad σ Nat
  | .custom => passOver! bytes
  | .tables => passOver! bytes
  | .elements => passOver! bytes
  | .types => do
    let (types, pos) ← read! base (Reader.vector! Reader.funcType!) bytes 0
    (modify fun l => { l with module.types := types } : Load σ Unit)
    return pos
  | .imports => do
    let (entries, pos) ← read! base (Reader.vector! Reader.importEntry!) bytes 0
    entries.toList.forM (importEntry! resolve base)
    return pos
  | .functions => do
    let (indices, pos) ← read! base (Reader.vector! Reader.u32!) bytes 0
    let _ ← Checked.size (← (get : Load σ _)).module.functions.size
    (noteDeclared indices.size : Load σ Unit)
    indices.toList.forM fun index => (functionEntry base index : Load σ Unit)
    return pos
  | .memories => do
    let (limits, pos) ← read! base (Reader.vector! Reader.limits!) bytes 0
    limits.toList.forM addMemory!
    return pos
  | .globals => do
    let (entries, pos) ← read! base (Reader.vector! Reader.globalEntry!) bytes 0
    entries.toList.forM fun entry => (globalEntry base entry : Load σ Unit)
    return pos
  | .exports => do
    let (entries, pos) ← read! base (Reader.vector! Reader.exportEntry!) bytes 0
    entries.toList.forM fun entry => (exportEntry base entry : Load σ Unit)
    return pos
  | .start => do
    let (index, pos) ← read! base Reader.u32! bytes 0
    (modify fun l => { l with module.start := some index } : Load σ Unit)
    return pos
  | .dataCount => do
    let (_, pos) ← read! base Reader.u32! bytes 0
    return pos
  | .code => do
    let (entries, pos) ← read! base (Reader.vector! Reader.codeEntry!) bytes 0
    let l ← (get : Load σ _)
    if entries.size ≠ l.declared then (refuse base .bodyCount : Load σ Unit)
    (set { l with bodies := entries.size } : Load σ Unit)
    let _ ← Checked.size entries.size
    attach! base l.firstDeclared 0 entries.toList
    return pos
  | .data => do
    let (entries, pos) ← read! base (Reader.vector! Reader.dataEntry!) bytes 0
    entries.toList.forM (dataEntry! base)
    return pos

def oneSection! (resolve : Resolver σ) (bytes : ByteArray) (pos : Nat) : GuardedLoad σ Nat := do
  let (header, start) ← read! 0 Reader.sectionHeader! bytes pos
  let (part, next) ← read! 0 (Reader.bytes! header.size) bytes start
  (advance start header.kind : Load σ Unit)
  let stop ← payload! resolve start part header.kind
  if stop < part.size then
    let offset ← Checked.add 64 start stop
    (refuse offset .unreadPayload : Load σ Unit)
  return next

def sections! (resolve : Resolver σ) (bytes : ByteArray) : (fuel : Nat) → (pos : Nat) → GuardedLoad σ Unit
  | 0, _ => return
  | fuel + 1, pos =>
    if bytes.size ≤ pos then return
    else do
      let next ← oneSection! resolve bytes pos
      sections! resolve bytes fuel next

/-- The bytes are copied to an array of four. -/
def expect! (bytes : ByteArray) (offset : Nat) (part : ByteArray) (defect : Defect) : GuardedLoad σ Unit := do
  match ← Reader.bytes! 4 bytes offset with
  | .ok found _ => do
    Checked.require (found.size = 4)
    if found.data = part.data then return else (refuse offset defect : Load σ Unit)
  | .error _ _ => (refuse offset .truncatedHeader : Load σ Unit)

/-- Looks for what is missing, and lets the functions have their jump tables. -/
def finish (bytes : ByteArray) : Load σ Unit := do
  let l ← get
  if l.declared ≠ l.bodies then refuse bytes.size .bodyCount
  set { l with module := l.module.withJumps l.store }

/-- No jump table is built so far. This is done where it is asked for. -/
def container! (resolve : Resolver σ) (bytes : ByteArray) : GuardedLoad σ Unit := do
  expect! bytes 0 magic .magic
  expect! bytes 4 version .version
  sections! resolve bytes bytes.size 8
  (finish bytes : Load σ Unit)

end Load

def Module.decode! (bytes : ByteArray) (options : Options) (resolve : Resolver σ) :
    Checked (EStateM.Result Failure (Loading σ) Unit) :=
  Load.container! resolve bytes { store := { options } }

/-- What is kept while a module is loaded: a store as it has to be, and a number of functions that have been given. -/
structure Loading.Sturdy (l : Loading σ) : Prop where
  store : l.store.Sturdy
  firstDeclared : l.firstDeclared < allocationLimit

namespace Load
open Loading
variable {resolve : Resolver σ} {base : Nat} {bytes : ByteArray}

/-! ### What there is nothing to guard in -/

theorem get_maintains : Maintains Sturdy (get : Load σ _) := fun _ h => h

theorem refuse_maintains (offset : Nat) (defect : Defect) : Maintains Sturdy (refuse offset defect : Load σ α) := .throw _

/-- What does not touch the store is kept. -/
theorem modify_maintains {change : Loading σ → Loading σ} (store : ∀ l, (change l).store = l.store)
    (firstDeclared : ∀ l, (change l).firstDeclared = l.firstDeclared) : Maintains Sturdy (modify change : Load σ PUnit) :=
  fun l h => ⟨(store l).symm ▸ h.store, (firstDeclared l).symm ▸ h.firstDeclared⟩

theorem signature_maintains (base index : Nat) : Maintains Sturdy (signature base index : Load σ _) := by
  refine get_maintains.bind fun l => ?_
  split
  · exact .pure _
  · exact refuse_maintains _ _

theorem initial_maintains (base : Nat) (e : ConstExpr) : Maintains Sturdy (initial base e : Load σ _) := by
  cases e with
  | value v => exact .pure v
  | globalGet index =>
    refine get_maintains.bind fun l => ?_
    split
    · exact .pure _
    · exact refuse_maintains _ _

theorem addFunction_maintains (f : Function σ) : Maintains Sturdy (addFunction f) :=
  modify_maintains (fun _ => rfl) fun _ => rfl

theorem addGlobal_maintains (v : Value) (isMutable : Bool) : Maintains Sturdy (addGlobal v isMutable : Load σ Unit) :=
  fun _ h => ⟨h.store.congr rfl rfl, h.firstDeclared⟩

theorem addData_maintains (part : ByteArray) : Maintains Sturdy (addData part : Load σ Unit) :=
  fun _ h => ⟨h.store.congr rfl rfl, h.firstDeclared⟩

theorem functionEntry_maintains (base index : Nat) : Maintains Sturdy (functionEntry base index : Load σ Unit) :=
  (signature_maintains base index).bind fun _ => addFunction_maintains _

theorem globalEntry_maintains (base : Nat) (entry : GlobalEntry) :
    Maintains Sturdy (globalEntry base entry : Load σ Unit) := by
  refine (initial_maintains base entry.init).bind fun v => ?_
  split
  · exact refuse_maintains _ _
  · exact addGlobal_maintains v entry.isMutable

/-- A change that is made if there is what it needs. -/
theorem replace_maintains {p : Loading σ → Prop} {decided : ∀ l, Decidable (p l)} {change : Loading σ → Loading σ}
    (kept : ∀ l, l.Sturdy → (change l).Sturdy) (offset : Nat) (defect : Defect) :
    Maintains Sturdy (do let l ← get; if p l then set (change l) else refuse offset defect : Load σ Unit) := by
  refine .of_after fun l h => ?_
  rw [stateAfter_bind (get_apply l)]
  split
  · exact kept l h
  · exact h

/-- A memory that gets a name keeps its pages. -/
theorem exportEntry_maintains (base : Nat) (entry : ExportEntry) :
    Maintains Sturdy (exportEntry base entry : Load σ Unit) := by
  obtain ⟨name, kind, index⟩ := entry
  cases kind with
  | func =>
    refine replace_maintains (fun l h => ?_) _ _
    exact ⟨h.store, h.firstDeclared⟩
  | memory =>
    refine replace_maintains (fun l h => ?_) _ _
    refine ⟨⟨fun m there => ?_, h.store.limit⟩, h.firstDeclared⟩
    obtain ⟨i, inside, rfl⟩ := Array.mem_iff_getElem.mp there
    have inside : i < l.store.memories.size := by simpa using inside
    have whole := h.store.whole l.store.memories[i] (Array.getElem_mem inside)
    rw [Array.getElem_modify]
    split <;> exact whole
  | global =>
    refine replace_maintains (fun l h => ?_) _ _
    exact ⟨h.store.congr rfl rfl, h.firstDeclared⟩
  | table => exact .of_after fun l h => ⟨h.store, h.firstDeclared⟩

theorem attachOne_maintains (base index : Nat) (entry : CodeEntry) :
    Maintains Sturdy (attachOne base index entry : Load σ Unit) := by
  refine replace_maintains (fun l h => ?_) _ _
  exact ⟨h.store, h.firstDeclared⟩

theorem advance_maintains (base : Nat) (kind : SectionKind) : Maintains Sturdy (advance base kind : Load σ Unit) := by
  unfold advance
  split
  · refine get_maintains.bind fun l => ?_
    dsimp only
    split
    · exact (refuse_maintains (α := Unit) _ _).bind fun _ => modify_maintains (fun _ => rfl) fun _ => rfl
    · exact modify_maintains (fun _ => rfl) fun _ => rfl
  · exact .pure _

theorem finish_maintains (bytes : ByteArray) : Maintains Sturdy (finish bytes : Load σ Unit) := by
  refine .of_after fun l h => ?_
  unfold finish
  rw [stateAfter_bind (get_apply l)]
  dsimp only
  split
  · exact h
  · exact ⟨h.store, h.firstDeclared⟩

/-! ### What is read -/

/-- What is read ends in the input, and errors are told at offsets that fit. -/
theorem read_guarded {I : Loading σ → Prop} {g : GuardedReader α} {r : Reader α} {pos : Nat}
    (faithful : Reader.Faithful bytes g r) (inside : pos ≤ bytes.size) (room : base + bytes.size < 1 <<< 64) :
    Gives I (fun p => r bytes pos = .ok p.1 p.2 ∧ p.2 ≤ bytes.size) (read! base g bytes pos) (read base r bytes pos) := by
  unfold read! read
  cases ran : r bytes pos with
  | ok a next =>
    obtain ⟨same, inside'⟩ := faithful.of_ok inside ran
    exact .check (.of_eq same) (.pure ⟨rfl, inside'⟩)
  | error e last =>
    obtain ⟨same, right, -⟩ := faithful.of_error inside ran
    exact .check (.of_eq same) (.check (.of_eq (ReadError.shift!_ok (by omega))) (.throw _))

/-! ### Records -/

theorem addMemory_guarded (limits : Limits) :
    Guards Sturdy (addMemory! limits : GuardedLoad σ Unit) (addMemory limits) := by
  refine .check (.of_eq (Memory.new_checked limits)) (Guards.lift fun l h => ?_)
  refine ⟨⟨fun m there => ?_, h.store.limit⟩, h.firstDeclared⟩
  rcases Array.mem_push.mp there with there | rfl
  · exact h.store.whole m there
  · exact Memory.new_whole limits

theorem importEntry_guarded (base : Nat) (entry : ImportEntry) :
    Guards Sturdy (importEntry! resolve base entry) (importEntry resolve base entry) := by
  obtain ⟨moduleName, name, kind⟩ := entry
  cases kind with
  | memory limits => exact addMemory_guarded limits
  | func index => exact .lift ((signature_maintains base index).bind fun _ => addFunction_maintains _)
  | table => exact .lift (.pure _)
  | global type isMutable => exact .lift (addGlobal_maintains _ isMutable)

theorem attach_eq (base index : Nat) (entry : CodeEntry) (rest : List CodeEntry) :
    (attach base index (entry :: rest) : Load σ Unit) =
      attachOne base index entry >>= fun _ => attach base (index + 1) rest := by
  funext l
  rw [attach, attachOne, bind_assoc, bind_ok (get_apply l), bind_ok (get_apply l)]
  split
  · rfl
  · rfl

/-- There are no more bodies than there may be entries in a vector. -/
theorem attach_guarded {first count : Nat} {entries : List CodeEntry} (start : first < allocationLimit)
    (room : count + entries.length < allocationLimit) :
    Guards Sturdy (attach! base first count entries : GuardedLoad σ Unit) (attach base (first + count) entries) := by
  induction entries generalizing count with
  | nil => exact .pure _
  | cons entry rest ih =>
    rw [List.length_cons] at room
    rw [attach_eq]
    refine Gives.check (.of_eq (Checked.add_sizes start (by omega))) ?_
    exact Guards.bind (.lift (attachOne_maintains base _ entry)) fun _ => ih (by omega)

theorem writeSegment_guarded (memory offset : Nat) (part : ByteArray) :
    Guards Sturdy (writeSegment! base memory offset part : GuardedLoad σ Unit) (writeSegment base memory offset part) := by
  intro l h
  have unguarded : writeSegment base memory offset part l =
      segmentResult base memory l (Store.onMemory memory (Memory.write offset part) l.store) := by
    unfold writeSegment segmentResult segmentFailure
    cases Store.onMemory memory (Memory.write offset part) l.store with
    | ok u store => rfl
    | error e store => cases e <;> rfl
  have written : Guards Store.Sturdy (Store.onMemory! memory (Memory.write! offset part))
      (Store.onMemory memory (Memory.write offset part)) := Store.onMemory_guarded (Memory.write_guarded offset part)
  exact (written l.store h.store).through (segmentResult base memory l) rfl unguarded
    (fun _ store sturdy => ⟨_, rfl, sturdy, h.firstDeclared⟩) fun _ store sturdy => ⟨_, _, rfl, sturdy, h.firstDeclared⟩

theorem dataEntry_guarded (entry : DataEntry) :
    Guards Sturdy (dataEntry! base entry : GuardedLoad σ Unit) (dataEntry base entry) := by
  obtain ⟨mode, part⟩ := entry
  cases mode with
  | passive => exact .lift (addData_maintains part)
  | active memory place =>
    refine Guards.bind (.lift (initial_maintains base place)) fun v => ?_
    cases v with
    | i32 offset => exact Guards.bind (writeSegment_guarded memory _ part) fun _ => .lift (addData_maintains _)
    | _ => exact .throw _

/-! ### Sections -/

section Payload
variable (small : bytes.size < allocationLimit) (room : base + bytes.size < 1 <<< 64)
include small room

omit small in
/-- A section is read as a whole, and then taken in. -/
theorem section_guarded {g : GuardedReader α} {r : Reader α} (faithful : Reader.Faithful bytes g r)
    {k! : α × Nat → GuardedLoad σ Nat} {k : α × Nat → Load σ Nat} (hk : ∀ p, Guards Sturdy (k! p) (k p)) :
    Guards Sturdy (read! base g bytes 0 >>= k!) (read base r bytes 0 >>= k) :=
  Gives.bind (read_guarded faithful (Nat.zero_le _) room) fun p _ => hk p

/-- The same where what has been read is a vector, and its entries are taken in one after another. -/
theorem entries_guarded {g : GuardedReader α} {r : Reader α} (faithful : Reader.Faithful bytes g r)
    {each! : α → GuardedLoad σ Unit} {each : α → Load σ Unit} (h : ∀ a, Guards Sturdy (each! a) (each a)) :
    Guards Sturdy
      (read! base (Reader.vector! g) bytes 0 >>= fun (entries, pos) => entries.toList.forM each! >>= fun _ => pure pos)
      (read base (Reader.vector r) bytes 0 >>= fun (entries, pos) => entries.forM each >>= fun _ => pure pos) := by
  refine section_guarded room (Reader.vector_faithful small faithful) fun (entries, pos) => ?_
  dsimp only
  rw [forM_eq]
  exact (Guards.forM h _).bind fun _ => .pure _

theorem payload_guarded (kind : SectionKind) :
    Guards Sturdy (payload! resolve base bytes kind) (payload resolve base bytes kind) := by
  have passed : Guards (ε := Failure) (Sturdy (σ := σ)) (liftM (passOver! bytes)) (pure bytes.size) := by
    refine .checked (.of_eq ?_)
    unfold passOver!
    rw [Checked.sliceBytes_ok ⟨Nat.zero_le _, Nat.le_refl _⟩]
    rfl
  cases kind with
  | custom => exact passed
  | tables => exact passed
  | elements => exact passed
  | types =>
    refine section_guarded room (Reader.vector_faithful small (Reader.funcType_faithful small)) fun _ => ?_
    exact Guards.bind (.lift (modify_maintains (fun _ => rfl) fun _ => rfl)) fun _ => .pure _
  | imports => exact entries_guarded small room (Reader.importEntry_faithful small) (importEntry_guarded base)
  | functions =>
    refine section_guarded room (Reader.vector_faithful small (Reader.u32_faithful small)) fun (indices, pos) => ?_
    dsimp only
    rw [forM_eq]
    refine fun l h => GivesAt.size (n := l.module.functions.size) fun bounded => ?_
    -- The declared functions begin behind those there are so far, and these are no more than an index can count.
    have noted : GivesAt Sturdy Anything l (liftM (noteDeclared indices.size : Load σ Unit)) (noteDeclared indices.size) :=
      .of_faultless (.of_eq rfl) ⟨h.store, bounded⟩
    refine noted.bind fun _ t sturdy _ _ => (Guards.bind (Guards.forM (fun index => ?_) _) fun _ => .pure _) t sturdy
    exact .lift (functionEntry_maintains base index)
  | memories => exact entries_guarded small room (Reader.limits_faithful small) addMemory_guarded
  | globals =>
    exact entries_guarded small room (Reader.globalEntry_faithful small) fun e => .lift (globalEntry_maintains base e)
  | exports =>
    exact entries_guarded small room (Reader.exportEntry_faithful small) fun e => .lift (exportEntry_maintains base e)
  | start =>
    refine section_guarded room (Reader.u32_faithful small) fun _ => ?_
    exact Guards.bind (.lift (modify_maintains (fun _ => rfl) fun _ => rfl)) fun _ => .pure _
  | dataCount => exact section_guarded room (Reader.u32_faithful small) fun _ => .pure _
  | code =>
    refine section_guarded room (Reader.vector_faithful small (Reader.codeEntry_faithful small)) fun (entries, pos) => ?_
    refine fun l h => (Guards.lift get_maintains l h).bind fun l t sturdy _ got => ?_
    cases got
    dsimp only
    -- Past this test there are as many bodies as declared functions, and each body goes to one of them.
    by_cases different : entries.size ≠ l.declared
    · rw [if_pos different, if_pos different]
      exact (Gives.bind (.throw (Q := fun _ => False) _) fun _ none => none.elim) l sturdy
    · rw [if_neg different, if_neg different]
      have noted : Maintains Sturdy (set { l with bodies := entries.size } : Load σ PUnit) :=
        fun _ _ => ⟨sturdy.store, sturdy.firstDeclared⟩
      refine (Guards.bind (.lift noted) fun _ => Gives.size fun bounded => ?_) l sturdy
      exact (attach_guarded sturdy.firstDeclared (by simpa using bounded)).bind fun _ => .pure _
  | data => exact entries_guarded small room (Reader.dataEntry_faithful small) dataEntry_guarded

end Payload

theorem oneSection_guarded (small : bytes.size < allocationLimit) {pos : Nat} (inside : pos ≤ bytes.size) :
    Guards Sturdy (oneSection! resolve bytes pos) (oneSection resolve bytes pos) := by
  have room : 0 + bytes.size < 1 <<< 64 := by
    unfold allocationLimit at small
    omega
  refine Gives.bind (read_guarded (Reader.sectionHeader_faithful small) inside room) fun (header, start) ⟨_, inside⟩ => ?_
  refine Gives.bind (read_guarded (Reader.bytes_faithful header.size) inside room) fun (part, next) ⟨taken, _⟩ => ?_
  dsimp only at *
  obtain ⟨-, stop, rfl, -⟩ := Reader.bytes_eq_ok.mp taken
  have size : (bytes.extract start (start + header.size)).size = header.size := by
    rw [ByteArray.size_extract]
    omega
  have small' : (bytes.extract start (start + header.size)).size < allocationLimit := by omega
  have room' : start + (bytes.extract start (start + header.size)).size < 1 <<< 64 := by omega
  refine Guards.bind (.lift (advance_maintains start header.kind)) fun _ => ?_
  refine Guards.bind (payload_guarded small' room' header.kind) fun stop => ?_
  split
  · refine Gives.check (.of_eq (Checked.add_ok (by omega))) ?_
    exact Gives.bind (.throw (Q := fun _ => False) _) fun _ none => none.elim
  · exact .pure _

/-- The position is always in the input. -/
theorem sections_guarded (small : bytes.size < allocationLimit) (fuel pos : Nat) :
    Guards Sturdy (sections! resolve bytes fuel pos) (sections resolve bytes fuel pos) := by
  induction fuel generalizing pos with
  | zero => exact .pure _
  | succ fuel ih =>
    unfold sections! sections
    split
    · exact .pure _
    · exact (oneSection_guarded small (Nat.le_of_not_le ‹_›)).bind ih

theorem expect_guarded {I : Loading σ → Prop} {offset : Nat} (inside : offset ≤ bytes.size) (part : ByteArray)
    (defect : Defect) :
    Gives I (fun _ => offset + 4 ≤ bytes.size) (expect! bytes offset part defect) (expect bytes offset part defect) := by
  unfold expect! expect
  cases ran : Reader.bytes 4 bytes offset with
  | error e last => exact .check (.of_eq ((Reader.bytes_faithful 4).of_error inside ran).1) (.throw _)
  | ok found next =>
    refine .check (.of_eq ((Reader.bytes_faithful 4).of_ok inside ran).1) ?_
    obtain ⟨-, stop, rfl, -⟩ := Reader.bytes_eq_ok.mp ran
    have size : (bytes.extract offset (offset + 4)).size = 4 := by
      rw [ByteArray.size_extract]
      omega
    refine .check (.of_eq (Checked.require_ok size)) ?_
    dsimp only
    split
    · exact .pure stop
    · exact .throw _

/-- The second four bytes are looked for behind the first four. -/
theorem container_guarded (resolve : Resolver σ) (small : bytes.size < allocationLimit) :
    Guards Sturdy (container! resolve bytes) (container resolve bytes) := by
  refine Gives.bind (expect_guarded (Nat.zero_le _) _ _) fun _ inside => ?_
  refine Gives.bind (expect_guarded (by omega) _ _) fun _ _ => ?_
  exact Guards.bind (sections_guarded small _ _) fun _ => .lift (finish_maintains bytes)

end Load

namespace Module
variable {bytes : ByteArray} {options : Options} {resolve : Resolver σ}

/-- A module is loaded without a fault, and what has been read so far is as it has to be. -/
theorem decode_guarded (small : bytes.size < allocationLimit) (limit : options.maxCallDepth < addressLimit)
    (resolve : Resolver σ) :
    Safely (fun _ => (stateAfter (Load.container resolve bytes) { store := { options } }).store.Sturdy)
      (decode! bytes options resolve) (decode bytes options resolve) := by
  have start : Loading.Sturdy ({ store := { options } } : Loading σ) :=
    ⟨⟨nofun, limit⟩, show 0 < allocationLimit by decide⟩
  exact (Load.container_guarded resolve small _ start).safely.imp fun ⟨after, _⟩ => after.store

end Module
end Wasm
