import Wasm.Proofs.Loading
import Wasm.Proofs.Operations

/-! What bodies and data segments do to a module that is being loaded. -/

namespace Wasm
variable {σ : Type}

namespace Outline
variable {resolve : Resolver σ} {A : Outline}

/-! ### Bodies -/

theorem declaredFunction_concat {types : List FuncType} {done : List CodeEntry} {entry : CodeEntry} {i signature : Nat} :
    (declaredFunction types (done ++ [entry]) i signature : Function σ) =
      if done.length = i then
        { (declaredFunction types done i signature : Function σ) with locals := entry.locals, body := .code entry.body }
      else declaredFunction types done i signature := by
  unfold declaredFunction
  by_cases here : done.length = i
  · rw [if_pos here]
    simp [← here]
  · rw [if_neg here]
    rcases Nat.lt_or_ge i done.length with before | behind
    · rw [List.getElem?_append_left before]
    · rw [List.getElem?_eq_none_iff.mpr (by simp; omega), List.getElem?_eq_none_iff.mpr behind]

/-- One body more goes to the next declared function. -/
theorem functionTable_body (resolve : Resolver σ) (done : List CodeEntry) (entry : CodeEntry) :
    { A with code := done ++ [entry] }.functionTable resolve =
      ({ A with code := done }.functionTable resolve).modify ((A.importedFunctions resolve).length + done.length)
        fun f => { f with locals := entry.locals, body := .code entry.body } := by
  refine Array.ext_getElem? fun j => ?_
  have imported (code : List CodeEntry) : { A with code }.importedFunctions resolve = A.importedFunctions resolve := rfl
  rw [Array.getElem?_modify]
  simp only [functionTable, functionList, Array.getElem?_mapIdx, List.getElem?_toArray, imported]
  rcases Nat.lt_or_ge j (A.importedFunctions resolve).length with before | behind
  · rw [if_neg (by omega), List.getElem?_append_left before, List.getElem?_append_left before]
    rfl
  · obtain ⟨k, rfl⟩ := Nat.exists_eq_add_of_le behind
    rw [List.getElem?_append_right behind, List.getElem?_append_right behind, Nat.add_sub_cancel_left,
      List.getElem?_mapIdx, List.getElem?_mapIdx]
    simp only [Nat.add_left_cancel_iff]
    cases A.functions[k]? with
    | none => simp
    | some signature =>
      simp only [Option.map_some, declaredFunction_concat]
      by_cases here : done.length = k
      · rw [if_pos here, if_pos here]
        rfl
      · rw [if_neg here, if_neg here]
        rfl

end Outline

namespace Load
variable {resolve : Resolver σ} {options : Options} {p : Progress} {base : Nat} {A : Outline}

theorem attach_loading (rest : List CodeEntry) : ∀ done, (done ++ rest).length = A.functions.length →
    attach base ((A.importedFunctions resolve).length + done.length) rest
        ({ A with code := done }.loading resolve options p) =
      .ok () ({ A with code := done ++ rest }.loading resolve options p) := by
  induction rest with
  | nil =>
    intro done _
    rw [List.append_nil]
    rfl
  | cons entry rest ih =>
    intro done enough
    have size : ({ A with code := done }.loading resolve options p).module.functions.size = A.count .func :=
      Outline.size_functionTable
    have count : A.count .func = (A.importedFunctions resolve).length + A.functions.length := by
      rw [Outline.length_importedFunctions]
      rfl
    rw [List.length_append, List.length_cons] at enough
    have next := ih (done ++ [entry]) (by simpa using enough)
    rw [List.append_assoc, List.singleton_append, List.length_append, List.length_singleton, ← Nat.add_assoc] at next
    have functions := Outline.functionTable_body (A := A) resolve done entry
    rw [attach, bind_ok (get_apply _)]
    dsimp only
    rw [size, if_pos (by omega)]
    refine (bind_ok (a := ⟨⟩) (congrArg (EStateM.Result.ok PUnit.unit) ?_)).trans next
    simp only [Outline.loading, Outline.module, functions]
    rfl

end Load

/-! ### Data segments -/

namespace Outline
variable {A : Outline}

theorem segments_concat (done : List DataEntry) (d : DataEntry) (memory : Nat) :
    { A with data := done ++ [d] }.segments memory =
      { A with data := done }.segments memory ++ (A.segment? memory d).toList := by
  show (done ++ [d]).filterMap (A.segment? memory) = done.filterMap (A.segment? memory) ++ _
  rw [List.filterMap_append, List.filterMap_cons, List.filterMap_nil]
  cases A.segment? memory d <;> rfl

theorem dataTable_concat (done : List DataEntry) (d : DataEntry) :
    { A with data := done ++ [d] }.dataTable = { A with data := done }.dataTable.push d.kept := by
  simp [dataTable]

/-- A segment that is not copied leaves the memories. -/
theorem memoryTable_passive (done : List DataEntry) (bytes : ByteArray) :
    { A with data := done ++ [DataEntry.mk .passive bytes] }.memoryTable = { A with data := done }.memoryTable := by
  unfold memoryTable
  simp only [segments_concat, segment?, Option.toList_none, List.append_nil]
  rfl

/-- One segment more changes the memory that it is copied to. -/
theorem memoryTable_active (done : List DataEntry) {memory : Nat} {place : ConstExpr} {bytes : ByteArray} {limits : Limits}
    (there : A.memoryLimits[memory]? = some limits) :
    { A with data := done ++ [DataEntry.mk (.active memory place) bytes] }.memoryTable =
      { A with data := done }.memoryTable.setIfInBounds memory (.holding limits (A.nameOf .memory memory)
        ({ A with data := done }.segments memory ++ [(A.address place, bytes)])) := by
  refine Array.ext_getElem? fun i => ?_
  have inside := (List.getElem?_eq_some_iff.mp there).1
  have size : { A with data := done }.memoryTable.size = A.memoryLimits.length := size_memoryTable
  rw [Array.getElem?_setIfInBounds, size]
  simp only [memoryTable, Array.getElem?_mapIdx, List.getElem?_toArray, segments_concat, segment?]
  by_cases here : memory = i
  · subst here
    rw [if_pos rfl, if_pos inside, if_pos rfl]
    exact congrArg (Option.map _) there
  · rw [if_neg here, if_neg here, Option.toList_none]
    simp only [List.append_nil]
    rfl

/-- The segments that are copied to a memory have room in it. -/
theorem segments_fit {done : List DataEntry} (right : ∀ d ∈ done, A.Fits d) {memory : Nat} {limits : Limits}
    (there : A.memoryLimits[memory]? = some limits) {t : Segment} (ht : t ∈ { A with data := done }.segments memory) :
    t.stop ≤ Memory.mostPages limits * pageSize := by
  obtain ⟨⟨mode, bytes⟩, hd, same⟩ := List.mem_filterMap.mp ht
  have fits := right _ hd
  cases mode with
  | passive => cases same
  | active index place =>
    obtain ⟨-, limits', found, room⟩ := fits
    dsimp only [segment?] at same
    split at same <;> cases same
    subst memory
    cases there.symm.trans found
    exact room

end Outline

namespace Load
variable {resolve : Resolver σ} {options : Options} {p : Progress} {base : Nat} {A : Outline}

theorem writeSegment_eq_ok {memory offset : Nat} {bytes : ByteArray} {l l' : Loading σ} :
    writeSegment base memory offset bytes l = .ok () l' ↔ ∃ m m', l.store.memories[memory]? = some m ∧
      Memory.write offset bytes m = .ok () m' ∧
      l' = { l with store.memories := l.store.memories.setIfInBounds memory m' } := by
  unfold writeSegment
  constructor
  · intro h
    split at h <;> cases h
    obtain ⟨m, m', found, written, rfl⟩ := Store.onMemory_eq_ok.mp ‹_›
    exact ⟨m, m', found, written, rfl⟩
  · rintro ⟨m, m', found, written, rfl⟩
    rw [Store.onMemory_eq_ok.mpr ⟨m, m', found, written, rfl⟩]

/-- A memory takes a segment if it has room for it. -/
theorem writeSegment_loading (valid : ∀ limits ∈ A.memoryLimits, limits.Valid) {done : List DataEntry}
    (right : ∀ d ∈ done, A.Fits d) {memory : Nat} {place : ConstExpr} {bytes : ByteArray} :
    Ensures (fun l => l = { A with data := done }.loading resolve options p)
      (writeSegment base memory (A.address place) bytes)
      (fun _ l => (∃ limits, A.memoryLimits[memory]? = some limits ∧
          Segment.stop (A.address place, bytes) ≤ Memory.mostPages limits * pageSize) ∧
        l = { { A with data := done }.loading resolve options p with
          store.memories := { A with data := done ++ [DataEntry.mk (.active memory place) bytes] }.memoryTable })
      fun _ => ¬∃ limits, A.memoryLimits[memory]? = some limits ∧
        Segment.stop (A.address place, bytes) ≤ Memory.mostPages limits * pageSize := by
  -- The memories hold what the segments done so far have left there.
  have table : ({ A with data := done }.loading resolve options p).store.memories[memory]? =
      A.memoryLimits[memory]?.map fun limits =>
        .holding limits (A.nameOf .memory memory) ({ A with data := done }.segments memory) := by
    show { A with data := done }.memoryTable[memory]? = _
    simp only [Outline.memoryTable, Array.getElem?_mapIdx, List.getElem?_toArray]
    rfl
  refine .of_cases ?_ ?_
  · rintro l _ l' rfl done'
    obtain ⟨m, m', found, written, rfl⟩ := writeSegment_eq_ok.mp done'
    rw [table] at found
    obtain ⟨limits, there, rfl⟩ := Option.map_eq_some_iff.mp found
    have room : Segment.stop (A.address place, bytes) ≤ Memory.mostPages limits * pageSize := by
      refine Decidable.byContradiction fun none => ?_
      rw [Memory.write_holding_error (valid _ (List.mem_of_getElem? there)) (fun t => Outline.segments_fit right there)
        none] at written
      cases written
    rw [Memory.write_holding (s := (A.address place, bytes)) room] at written
    cases written
    exact ⟨⟨limits, there, room⟩, by rw [Outline.memoryTable_active done there]; rfl⟩
  · rintro l e l' rfl failed ⟨limits, there, room⟩
    rw [there] at table
    rw [writeSegment_eq_ok.mpr ⟨_, _, table, Memory.write_holding (s := (A.address place, bytes)) room, rfl⟩] at failed
    cases failed

theorem dataEntry_loading (valid : ∀ limits ∈ A.memoryLimits, limits.Valid)
    (typed : A.globalList.map (·.value.type) = A.globalTypes) (done : List DataEntry) (d : DataEntry)
    (right : ∀ d ∈ done, A.Fits d) :
    Ensures (fun l => l = { A with data := done }.loading resolve options p) (dataEntry base d)
      (fun _ l => A.Fits d ∧ l = { A with data := done ++ [d] }.loading resolve options p) fun _ => ¬A.Fits d := by
  obtain ⟨mode, bytes⟩ := d
  have data := Outline.dataTable_concat (A := A) done ⟨mode, bytes⟩
  cases mode with
  | passive =>
    rintro l rfl
    refine ⟨trivial, ?_⟩
    have memories := Outline.memoryTable_passive (A := A) done bytes
    simp only [Outline.loading, Outline.store, memories, data]
    rfl
  | active memory place =>
    have place_loading : Ensures (fun l => l = { A with data := done }.loading resolve options p) (initial base place)
        (fun v l => (v = place.eval A.globalList ∧ ∀ t, place.HasType A.globalTypes t ↔ v.type = t) ∧
          l = { A with data := done }.loading resolve options p) fun _ => ∀ t, ¬place.HasType A.globalTypes t :=
      typed ▸ initial_loading place
    refine Ensures.bind (place_loading.raising fun _ wrong fits => wrong .i32 fits.1) fun v => .given ?_
    rintro ⟨rfl, type⟩
    -- An address of another type traps here, and no outline with it is right.
    have other {v : Value} (value : place.eval A.globalList = v) (kind : v.type ≠ .i32) :
        ¬A.Fits ⟨.active memory place, bytes⟩ := fun fits => kind (value ▸ (type .i32).mp fits.1)
    cases value : place.eval A.globalList with
    | i32 offset =>
      have address : offset.toNat = A.address place := by rw [Outline.address, value]
      dsimp only
      rw [address]
      refine ((writeSegment_loading valid right).raising fun _ none fits => none fits.2).bind fun _ => .given fun room => ?_
      rintro l rfl
      refine ⟨⟨(type .i32).mpr (by rw [value]; rfl), room⟩, ?_⟩
      simp only [Outline.loading, Outline.store, data]
      rfl
    | i64 v => exact .throw fun _ _ => other value (by rintro ⟨⟩)
    | f32 v => exact .throw fun _ _ => other value (by rintro ⟨⟩)
    | f64 v => exact .throw fun _ _ => other value (by rintro ⟨⟩)

end Load
end Wasm
