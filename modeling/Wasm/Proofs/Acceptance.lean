import Mathlib.Data.List.Forall2
import Wasm.Proofs.RoundTrip
import Wasm.Proofs.Bodies

/-! What an accepted module looks like: its bytes, its tables, the store it starts with, and that no run of it comes to a
    function without a body. -/

namespace Wasm
variable {σ : Type}

/-! ### Tables entry by entry -/

theorem forall₂_mapIdx {α β γ : Type} {R : α → β → Prop} {S : α → γ → Prop} {as : List α} {bs : List β}
    (h : List.Forall₂ R as bs) :
    ∀ {g : Nat → β → γ}, (∀ i a b, R a b → S a (g i b)) → List.Forall₂ S as (bs.mapIdx g) := by
  induction h with
  | nil => exact fun _ => .nil
  | cons first _ ih =>
    intro g step
    rw [List.mapIdx_cons]
    exact .cons (step 0 _ _ first) (ih fun i a b => step (i + 1) a b)

theorem forall₂_right {α β : Type} {R : α → β → Prop} {as : List α} {bs : List β} (h : List.Forall₂ R as bs) {b : β}
    (hb : b ∈ bs) : ∃ a, R a b := by
  induction h with
  | nil => cases hb
  | cons first _ ih =>
    rcases List.mem_cons.mp hb with rfl | hb
    · exact ⟨_, first⟩
    · exact ih hb

/-- A function is what an entry imports. -/
structure ImportEntry.Imports (types : List FuncType) (resolve : Resolver σ) (e : ImportEntry) (f : Function σ) : Prop where
  signature : ∃ index, e.kind = .func index ∧ types[index]? = some f.signature
  locals : f.locals = []
  body : f.body = .host e.moduleName e.name (resolve e.moduleName e.name f.signature)

/-- A function is what an index of a signature declares, with a body. -/
structure CodeEntry.Defines (types : List FuncType) (declaration : Nat × CodeEntry) (f : Function σ) : Prop where
  signature : types[declaration.1]? = some f.signature
  locals : f.locals = declaration.2.locals
  body : f.body = .code declaration.2.body

/-- A memory has whole pages, at least and at most as many as its bounds tell, and never more than there may be. -/
structure Memory.Bounded (limits : Limits) (m : Memory) : Prop where
  declared : m.limits = limits
  whole : ∃ pages, m.bytes.size = pages * pageSize ∧ min limits.min maxPages ≤ pages ∧
    pages ≤ min (limits.max.getD maxPages) maxPages

/-- What is left of a segment: nothing of an active one. -/
structure DataEntry.Leaves (d : DataEntry) (part : ByteArray) : Prop where
  passive : d.mode = .passive → part = d.bytes
  empty : part.size = 0 ↔ d.mode ≠ .passive ∨ d.bytes.size = 0

namespace Outline
variable {A : Outline} {resolve : Resolver σ} {options : Options} {l : Loading σ}

theorem importedFunctions_imports (imports : A.Right .imports) :
    List.Forall₂ (ImportEntry.Imports A.types resolve) (A.imports.filter ImportEntry.isFunction)
      (A.importedFunctions resolve) := by
  unfold importedFunctions
  suffices ∀ es : List ImportEntry, (∀ e ∈ es, ∀ index, e.kind = .func index → index < A.types.length) →
      List.Forall₂ (ImportEntry.Imports A.types resolve) (es.filter ImportEntry.isFunction)
        (es.filterMap (ImportEntry.function? A.types resolve)) from this _ fun e he => (imports e he).1
  intro es
  induction es with
  | nil => exact fun _ => .nil
  | cons e es ih =>
    intro there
    have rest := ih fun e he => there e (List.mem_cons_of_mem _ he)
    cases kind : e.kind with
    | func index =>
      have found := List.getElem?_eq_getElem (there e List.mem_cons_self index kind)
      rw [List.filter_cons_of_pos (by rw [ImportEntry.isFunction, kind]),
        List.filterMap_cons_some (by rw [ImportEntry.function?, kind])]
      exact .cons ⟨⟨index, kind, by rw [Load.signatureAt_eq found]; exact found⟩, rfl, rfl⟩ rest
    | _ =>
      rw [List.filter_cons_of_neg (by rw [ImportEntry.isFunction, kind]; exact Bool.false_ne_true),
        List.filterMap_cons_none (by rw [ImportEntry.function?, kind])]
      exact rest

theorem declaredFunctions_defines (functions : A.Right .functions) (code : A.Right .code) :
    List.Forall₂ (CodeEntry.Defines (σ := σ) A.types) (A.functions.zip A.code)
      (A.functions.mapIdx (declaredFunction A.types A.code)) := by
  have lengths : A.code.length = A.functions.length := code
  refine List.forall₂_iff_get.mpr ⟨by simp [lengths], fun i h₁ h₂ => ?_⟩
  rw [List.length_mapIdx] at h₂
  have found := List.getElem?_eq_getElem (functions A.functions[i] (List.getElem_mem h₂))
  simp only [List.get_eq_getElem, List.getElem_zip, List.getElem_mapIdx]
  unfold declaredFunction
  rw [List.getElem?_eq_getElem (by omega : i < A.code.length)]
  exact ⟨by rw [Load.signatureAt_eq found]; exact found, rfl, rfl⟩

/-- The functions of the host stand before all others, in the order of the imports; all others have code. -/
theorem functionTable_split (resolve : Resolver σ) (right : A.WellFormed) : ∃ hosts declared,
    (A.functionTable resolve).toList = hosts ++ declared ∧
      List.Forall₂ (ImportEntry.Imports A.types resolve) (A.imports.filter ImportEntry.isFunction) hosts ∧
      List.Forall₂ (CodeEntry.Defines A.types) (A.functions.zip A.code) declared := by
  unfold functionTable functionList
  rw [List.mapIdx_toArray, List.mapIdx_append]
  exact ⟨_, _, rfl,
    forall₂_mapIdx (importedFunctions_imports (right .imports)) fun i e f h => ⟨h.signature, h.locals, h.body⟩,
    forall₂_mapIdx (declaredFunctions_defines (right .functions) (right .code))
      fun i d f h => ⟨h.signature, h.locals, h.body⟩⟩

theorem globalTable_types (right : A.WellFormed) : A.globalTable.toList.map (·.value.type) = A.globalTypes := by
  rw [← globalList_types (right .globals), globalTable, List.mapIdx_toArray]
  exact List.ext_getElem (by simp) fun i _ _ => by simp

theorem memoryTable_bounded (right : A.WellFormed) : List.Forall₂ Memory.Bounded A.memoryLimits A.memoryTable.toList := by
  unfold memoryTable
  rw [List.mapIdx_toArray]
  refine List.forall₂_iff_get.mpr ⟨by simp, fun i h₁ h₂ => ?_⟩
  simp only [List.get_eq_getElem, List.getElem_mapIdx]
  have there := List.getElem?_eq_getElem h₁
  have valid := memoryLimits_valid (right .imports) (right .memories) _ (List.getElem_mem h₁)
  exact ⟨rfl, _, Memory.size_holding, Segment.le_pagesWith, Segment.pagesWith_le (Memory.leastPages_le valid)
    fun s => segments_fit (right .data) there⟩

theorem dataTable_leaves : List.Forall₂ DataEntry.Leaves A.data A.dataTable.toList := by
  refine List.forall₂_map_right_iff.mpr (List.forall₂_same.mpr fun d _ => ?_)
  obtain ⟨mode, bytes⟩ := d
  cases mode with
  | passive => exact ⟨fun _ => rfl, by simp [DataEntry.kept]⟩
  | active index place => exact ⟨nofun, by simp [DataEntry.kept]⟩

/-- No function waits for its body, so that calls can begin. -/
theorem Gives.ready (given : A.Gives resolve options l) (right : A.WellFormed) : l.module.Ready where
  tabled := given.module ▸ Module.withJumps_tabled _ _
  bodies f hf := by
    obtain ⟨hosts, declared, whole, imported, defined⟩ := A.functionTable_split resolve right
    have hf : f ∈ (A.functionTable resolve).toList := by
      rw [given.module] at hf
      exact Array.mem_toList_iff.mpr hf
    rw [whole] at hf
    rcases List.mem_append.mp hf with hf | hf
    · obtain ⟨e, imports⟩ := forall₂_right imported hf
      rw [imports.body]
      exact nofun
    · obtain ⟨d, defines⟩ := forall₂_right defined hf
      rw [defines.body]
      exact nofun

/-- What a module looks like that is accepted, and says what an outline does. -/
structure Accepted (A : Outline) (resolve : Resolver σ) (options : Options) (l : Loading σ) : Prop where
  /-- The functions of the host stand before all others, in the order of the imports; all others have code. -/
  functions : ∃ hosts declared, l.module.functions.toList = hosts ++ declared ∧
    List.Forall₂ (ImportEntry.Imports A.types resolve) (A.imports.filter ImportEntry.isFunction) hosts ∧
    List.Forall₂ (CodeEntry.Defines A.types) (A.functions.zip A.code) declared
  bodies : A.code.length = A.functions.length
  /-- No run comes to a function without a body, unless a function of the host pretends to. -/
  bodied : ∀ fuel arguments M N index,
    (∃ callee, l.module.invokeIndex fuel callee arguments M = .error (.trap (.missingBody index)) N) ∨
      (∃ name, l.module.invoke fuel name arguments M = .error (.trap (.missingBody index)) N) →
    l.module.HostFails (.missingBody index)
  globals : l.store.globals.toList.map (·.value.type) = A.globalTypes
  memories : List.Forall₂ Memory.Bounded A.memoryLimits l.store.memories.toList
  data : List.Forall₂ DataEntry.Leaves A.data l.store.data.toList
  stack : l.store.stack = {}
  effects : l.store.effects = 0
  depth : l.store.depth = 0
  shadow : l.store.shadow = false
  options : l.store.options = options

theorem Gives.accepted (given : A.Gives resolve options l) (right : A.WellFormed) : A.Accepted resolve options l where
  functions := by
    rw [given.module]
    exact functionTable_split resolve right
  bodies := right .code
  bodied fuel arguments M N index h := by
    have ready := given.ready right
    have ends : l.module.MayEndIn (.missingBody index) := by
      rcases h with ⟨callee, failed⟩ | ⟨name, failed⟩
      · exact Module.invokeIndex_mayEndIn ready failed
      · exact Module.invoke_mayEndIn ready failed
    exact ends.resolve_left fun bodied => bodied index rfl
  globals := by
    rw [given.store]
    exact globalTable_types right
  memories := by
    rw [given.store]
    exact memoryTable_bounded right
  data := by
    rw [given.store]
    exact dataTable_leaves
  stack := by rw [given.store]; rfl
  effects := by rw [given.store]; rfl
  depth := by rw [given.store]; rfl
  shadow := by rw [given.store]; rfl
  options := by rw [given.store]; rfl

end Outline

/-- The bytes of a module that is accepted are those that each module starts with and then whole sections, of which all
    but custom ones stand in order, and it has all the tables that these tell of. -/
theorem Module.decode_accepted {bytes : ByteArray} {options : Options} {resolve : Resolver σ} {l : Loading σ}
    (h : decode bytes options resolve = .ok () l) : ∃ sections, Section.SpelledModule sections bytes.data.toList ∧
      Section.Ordered sections ∧ (Outline.of sections).Accepted resolve options l := by
  obtain ⟨sections, spelled, ordered, right, given⟩ := decode_sound h
  exact ⟨sections, spelled, ordered, given.accepted right⟩

/-- The sample is accepted, and so looks like this. -/
theorem decode_accepted_sample : ∃ l, Module.decode Sample.bytes {} (Resolver.none (σ := Unit)) = .ok () l ∧
    ∃ sections, Section.SpelledModule sections Sample.bytes.data.toList ∧ Section.Ordered sections ∧
      (Outline.of sections).Accepted Resolver.none {} l := by
  obtain ⟨l, done, -⟩ : ∃ l, Module.decode Sample.bytes {} (Resolver.none (σ := Unit)) = .ok () l ∧ _ :=
    Module.decode_complete (by decide) Sample.spelled (by decide) Sample.right
  exact ⟨l, done, Module.decode_accepted done⟩

end Wasm
