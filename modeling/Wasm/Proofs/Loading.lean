import Wasm.Proofs.Outline
import Wasm.Proofs.Result

/-! What the entries of each section do to a module that is being loaded. What has been loaded is what an outline says,
    and then what it says with one entry more, if that entry is well formed. -/

namespace Wasm
variable {σ : Type}

/-- What is counted while a module is loaded. -/
structure Progress where
  rank : Nat := 0
  firstDeclared : Nat := 0
  declared : Nat := 0
  bodies : Nat := 0

namespace Outline

/-- A module that has been loaded as far as an outline says. -/
def loading (A : Outline) (resolve : Resolver σ) (options : Options) (p : Progress) : Loading σ :=
  { p with module := A.module resolve, store := A.store options, notices := A.notices }

variable {resolve : Resolver σ} {A : Outline} {options : Options} {p : Progress}

/-! ### Tables without names -/

theorem nameOf_nil (h : A.exports = []) (kind : ExportKind) (index : Nat) : A.nameOf kind index = none := by
  rw [nameOf, h]
  rfl

theorem mapIdx_same {α : Type} {as : List α} {f : Nat → α → α} (h : ∀ i, ∀ a ∈ as, f i a = a) :
    as.toArray.mapIdx f = as.toArray := by
  rw [List.mapIdx_toArray]
  congr 1
  refine List.ext_getElem (by simp) fun i _ hi => ?_
  rw [List.getElem_mapIdx]
  exact h i _ (List.getElem_mem hi)

theorem function?_name {types : List FuncType} {e : ImportEntry} {f : Function σ} (h : e.function? types resolve = some f) :
    f.name = none := by
  unfold ImportEntry.function? at h
  split at h <;> cases h
  rfl

theorem functionList_name {f : Function σ} (h : f ∈ A.functionList resolve) : f.name = none := by
  rcases List.mem_append.mp h with h | h
  · obtain ⟨e, -, same⟩ := List.mem_filterMap.mp h
    exact function?_name same
  · obtain ⟨i, _, rfl⟩ := List.mem_mapIdx.mp h
    unfold declaredFunction
    split <;> rfl

theorem functionTable_plain (h : A.exports = []) : A.functionTable resolve = (A.functionList resolve).toArray :=
  mapIdx_same fun i f hf => by rw [nameOf_nil h, ← functionList_name hf]

theorem importedGlobals_name {g : Global} (h : g ∈ A.importedGlobals) : g.name = none := by
  obtain ⟨e, -, same⟩ := List.mem_filterMap.mp h
  unfold ImportEntry.global? at same
  split at same <;> cases same
  rfl

theorem globalList_name {g : Global} (h : g ∈ A.globalList) : g.name = none := by
  suffices ∀ (entries : List GlobalEntry) (before : List Global), (∀ g ∈ before, g.name = none) →
      ∀ g ∈ entries.foldl (fun before e => before ++ [e.global before]) before, g.name = none from
    this A.globals A.importedGlobals (fun _ => importedGlobals_name) g h
  intro entries
  induction entries with
  | nil => exact fun _ h => h
  | cons e entries ih =>
    intro before hb
    refine ih _ fun g hg => ?_
    rcases List.mem_append.mp hg with hg | hg
    · exact hb g hg
    · rw [List.mem_singleton.mp hg]
      rfl

theorem globalTable_plain (h : A.exports = []) : A.globalTable = A.globalList.toArray :=
  mapIdx_same fun i g hg => by rw [nameOf_nil h, ← globalList_name hg]

theorem memoryTable_plain (exports : A.exports = []) (data : A.data = []) :
    A.memoryTable = (A.memoryLimits.map Memory.new).toArray := by
  rw [memoryTable, List.mapIdx_toArray]
  congr 1
  refine List.ext_getElem (by simp) fun i _ hi => ?_
  rw [List.getElem_mapIdx, List.getElem_map, nameOf_nil exports, Memory.new_eq, segments, data]
  rfl

/-- Before there are exports and data segments, the tables are lists of what has been declared. -/
theorem loading_plain (exports : A.exports = []) (data : A.data = []) (resolve : Resolver σ) (options : Options)
    (p : Progress) : A.loading resolve options p = { p with
    module := { functions := (A.functionList resolve).toArray, types := A.types.toArray, start := A.start }
    store := { memories := (A.memoryLimits.map Memory.new).toArray, globals := A.globalList.toArray, options } } := by
  rw [loading, module, store, functionTable_plain exports, memoryTable_plain exports data, globalTable_plain exports,
    dataTable, notices, exports, data]
  rfl

end Outline

/-! ### Types of globals -/

theorem ConstExpr.type_eval {globals : List Global} {e : ConstExpr} {t : ValType}
    (h : e.HasType (globals.map (·.value.type)) t) : (e.eval globals).type = t := by
  cases e with
  | value v => exact h
  | globalGet index =>
    rw [HasType, List.getElem?_map] at h
    obtain ⟨g, found, rfl⟩ := Option.map_eq_some_iff.mp h
    rw [eval, found]
    rfl

/-- Where the initializers are right, the globals have the declared types. -/
theorem Outline.globalList_types {A : Outline} (h : ∀ before e after, A.globals = before ++ e :: after →
    e.init.HasType (A.importedGlobals.map (·.value.type) ++ before.map (·.type)) e.type) :
    A.globalList.map (·.value.type) = A.globalTypes := by
  suffices ∀ (entries : List GlobalEntry) (globals : List Global), (∀ before e after, entries = before ++ e :: after →
      e.init.HasType (globals.map (·.value.type) ++ before.map (·.type)) e.type) →
      (entries.foldl (fun before e => before ++ [e.global before]) globals).map (·.value.type) =
        globals.map (·.value.type) ++ entries.map (·.type) from this A.globals A.importedGlobals h
  intro entries
  induction entries with
  | nil => simp
  | cons e entries ih =>
    intro globals right
    have type : (e.global globals).value.type = e.type :=
      ConstExpr.type_eval (by simpa using right [] e entries rfl)
    rw [List.foldl_cons, ih (globals ++ [e.global globals]) fun before e' after split => ?_]
    · simp [type]
    · simpa [type] using right (e :: before) e' after (by rw [split]; rfl)

/-! ### Imports, functions, memories and globals -/

namespace Load
variable {resolve : Resolver σ} {options : Options} {p : Progress} {base : Nat} {A : Outline}

theorem signature_apply (index : Nat) (l : Loading σ) : signature base index l =
    match l.module.types[index]? with
    | some t => .ok t l
    | none => .error (.malformed base (.typeIndex index)) l := by
  unfold signature
  rw [bind_ok (get_apply l)]
  cases l.module.types[index]? <;> rfl

theorem signature_loading {index : Nat} :
    Ensures (fun l => l = A.loading resolve options p) (signature base index)
      (fun t l => A.types[index]? = some t ∧ l = A.loading resolve options p) fun _ => ¬index < A.types.length := by
  rintro l rfl
  have types : (A.loading resolve options p).module.types[index]? = A.types[index]? := List.getElem?_toArray
  rw [signature_apply, types]
  cases found : A.types[index]? with
  | some t => exact ⟨rfl, rfl⟩
  | none => exact Nat.not_lt.mpr (List.getElem?_eq_none_iff.mp found)

theorem signatureAt_eq {index : Nat} {t : FuncType} (h : A.types[index]? = some t) : signatureAt A.types index = t := by
  rw [signatureAt, h]
  rfl

theorem initial_apply (e : ConstExpr) (l : Loading σ) : initial base e l =
    match e with
    | .value v => .ok v l
    | .globalGet index =>
      match l.store.globals[index]? with
      | some g => .ok g.value l
      | none => .error (.malformed base (.initialGlobal index)) l := by
  cases e with
  | value v => rfl
  | globalGet index =>
    unfold initial
    dsimp only
    rw [bind_ok (get_apply l)]
    cases l.store.globals[index]? <;> rfl

theorem importEntry_loading {types : List FuncType} {done : List ImportEntry} (e : ImportEntry) :
    Ensures (fun l => l = Outline.loading { types, imports := done } resolve options p) (importEntry resolve base e)
      (fun _ l => (∀ index, e.kind = .func index → index < types.length) ∧
        l = Outline.loading { types, imports := done ++ [e] } resolve options p)
      fun _ => ¬∀ index, e.kind = .func index → index < types.length := by
  obtain ⟨moduleName, name, kind⟩ := e
  have added := Outline.loading_plain (A := { types, imports := done ++ [⟨moduleName, name, kind⟩] }) rfl rfl
    resolve options p
  have before := Outline.loading_plain (A := { types, imports := done }) rfl rfl resolve options p
  simp only [Outline.functionList, Outline.importedFunctions, Outline.memoryLimits, Outline.globalList,
    Outline.importedGlobals, List.filterMap_append, List.filterMap_cons, List.filterMap_nil] at added before
  cases kind with
  | func index =>
    -- A function is the only import that can fail, for the want of its type.
    refine Ensures.bind (signature_loading.raising fun _ missing fits => missing (fits index rfl)) fun t => ?_
    rintro l ⟨found, rfl⟩
    refine ⟨fun _ same => by cases same; exact (List.getElem?_eq_some_iff.mp found).1, ?_⟩
    rw [added, before]
    simp [ImportEntry.function?, ImportEntry.limits?, ImportEntry.global?, signatureAt_eq found]
  | table =>
    rintro l rfl
    refine ⟨by rintro _ ⟨⟩, ?_⟩
    rw [added, before]
    simp [ImportEntry.function?, ImportEntry.limits?, ImportEntry.global?]
  | memory limits =>
    rintro l rfl
    refine ⟨by rintro _ ⟨⟩, ?_⟩
    rw [added, before]
    simp [ImportEntry.function?, ImportEntry.limits?, ImportEntry.global?]
  | global t isMutable =>
    rintro l rfl
    refine ⟨by rintro _ ⟨⟩, ?_⟩
    rw [added, before]
    simp [ImportEntry.function?, ImportEntry.limits?, ImportEntry.global?]

theorem functionEntry_loading (code : A.code = []) (exports : A.exports = []) (data : A.data = []) (done : List Nat)
    (index : Nat) :
    Ensures (fun l => l = { A with functions := done }.loading resolve options p) (functionEntry base index)
      (fun _ l => index < A.types.length ∧ l = { A with functions := done ++ [index] }.loading resolve options p)
      fun _ => ¬index < A.types.length := by
  refine Ensures.bind signature_loading fun t => ?_
  rintro l ⟨found, rfl⟩
  refine ⟨(List.getElem?_eq_some_iff.mp found).1, ?_⟩
  rw [Outline.loading_plain (by exact exports) (by exact data), Outline.loading_plain (by exact exports) (by exact data)]
  simp [Outline.functionList, Outline.importedFunctions, declaredFunction, code, signatureAt_eq found,
    Outline.memoryLimits, Outline.globalList, Outline.importedGlobals]

theorem addMemory_loading (exports : A.exports = []) (data : A.data = []) (done : List Limits) (limits : Limits) :
    addMemory limits ({ A with memories := done }.loading resolve options p) =
      .ok () ({ A with memories := done ++ [limits] }.loading resolve options p) := by
  rw [Outline.loading_plain (by exact exports) (by exact data), Outline.loading_plain (by exact exports) (by exact data)]
  simp [addMemory, Outline.functionList, Outline.importedFunctions, Outline.memoryLimits, Outline.globalList,
    Outline.importedGlobals]

/-- An initializer gives its value, if it has a type. -/
theorem initial_loading (e : ConstExpr) : Ensures (fun l => l = A.loading resolve options p) (initial base e)
    (fun v l => (v = e.eval A.globalList ∧ ∀ t, e.HasType (A.globalList.map (·.value.type)) t ↔ v.type = t) ∧
      l = A.loading resolve options p) fun _ => ∀ t, ¬e.HasType (A.globalList.map (·.value.type)) t := by
  rintro l rfl
  rw [initial_apply]
  cases e with
  | value v => exact ⟨⟨rfl, fun t => Iff.rfl⟩, rfl⟩
  | globalGet index =>
    have there : (A.loading resolve options p).store.globals[index]? =
        A.globalList[index]?.map fun g => { g with name := A.nameOf .global index } := by
      simp [Outline.loading, Outline.store, Outline.globalTable]
    dsimp only [ConstExpr.HasType, ConstExpr.eval]
    rw [there, List.getElem?_map]
    cases found : A.globalList[index]? with
    | some g => exact ⟨⟨rfl, fun t => by simp⟩, rfl⟩
    | none => exact fun t => nofun

theorem globalEntry_loading (exports : A.exports = []) (data : A.data = []) (done : List GlobalEntry) (e : GlobalEntry)
    (right : ∀ before e after, done = before ++ e :: after →
      e.init.HasType (A.importedGlobals.map (·.value.type) ++ before.map (·.type)) e.type) :
    Ensures (fun l => l = { A with globals := done }.loading resolve options p) (globalEntry base e)
      (fun _ l => e.init.HasType (A.importedGlobals.map (·.value.type) ++ done.map (·.type)) e.type ∧
        l = { A with globals := done ++ [e] }.loading resolve options p)
      fun _ => ¬e.init.HasType (A.importedGlobals.map (·.value.type) ++ done.map (·.type)) e.type := by
  have typed : (Outline.globalList { A with globals := done }).map (·.value.type) =
      A.importedGlobals.map (·.value.type) ++ done.map (·.type) := Outline.globalList_types (by exact right)
  refine Ensures.bind ((initial_loading e.init).raising fun _ wrong => typed ▸ wrong e.type) fun v => .given ?_
  rintro ⟨rfl, type⟩
  rw [typed] at type
  split
  · rename_i other
    exact .throw fun _ _ => mt (type e.type).mp other
  · rename_i same
    rintro l rfl
    refine ⟨(type e.type).mpr (Decidable.not_not.mp same), ?_⟩
    rw [Outline.loading_plain (by exact exports) (by exact data), Outline.loading_plain (by exact exports) (by exact data)]
    simp [Outline.functionList, Outline.importedFunctions, Outline.memoryLimits, Outline.globalList,
      Outline.importedGlobals, GlobalEntry.global]

end Load

/-! ### Exports -/

theorem modify_mapIdx {α β : Type} {f f' : Nat → α → β} {h : β → β} {index : Nat} (as : Array α)
    (here : ∀ a, h (f index a) = f' index a) (elsewhere : ∀ i, index ≠ i → f i = f' i) :
    (as.mapIdx f).modify index h = as.mapIdx f' := by
  refine Array.ext_getElem? fun i => ?_
  rw [Array.getElem?_modify, Array.getElem?_mapIdx, Array.getElem?_mapIdx]
  split
  · rename_i same
    subst same
    rw [Option.map_map]
    exact congrArg (Option.map · _) (funext here)
  · rename_i other
    rw [elsewhere i other]

namespace Outline
variable {resolve : Resolver σ} {A : Outline}

theorem nameOf_concat (done : List ExportEntry) (e : ExportEntry) (kind : ExportKind) (index : Nat) :
    { A with exports := done ++ [e] }.nameOf kind index =
      if e.kind = kind ∧ e.index = index then some e.name else { A with exports := done }.nameOf kind index := by
  simp only [nameOf, List.reverse_append, List.reverse_singleton, List.singleton_append, List.find?_cons]
  by_cases h : e.kind = kind ∧ e.index = index <;> simp [h]

/-- A table of named things where one export more is told of. -/
theorem named_concat {α β : Type} (kind : ExportKind) (as : Array α) (f : Nat → Option String → α → β)
    (name : β → β) (done : List ExportEntry) (e : ExportEntry) (named : ∀ i n a, name (f i n a) = f i (some e.name) a) :
    as.mapIdx (fun i => f i ({ A with exports := done ++ [e] }.nameOf kind i)) =
      if e.kind = kind then (as.mapIdx fun i => f i ({ A with exports := done }.nameOf kind i)).modify e.index name
      else as.mapIdx fun i => f i ({ A with exports := done }.nameOf kind i) := by
  split
  · rename_i same
    refine (modify_mapIdx _ (fun a => ?_) fun i other => ?_).symm
    · rw [nameOf_concat, if_pos ⟨same, rfl⟩, named]
    · rw [nameOf_concat, if_neg (other ·.2)]
  · rename_i other
    simp only [nameOf_concat, other, false_and, if_false]

theorem functionTable_concat (resolve : Resolver σ) (done : List ExportEntry) (e : ExportEntry) :
    { A with exports := done ++ [e] }.functionTable resolve =
      if e.kind = .func then ({ A with exports := done }.functionTable resolve).modify e.index fun f =>
        { f with name := some e.name } else { A with exports := done }.functionTable resolve :=
  named_concat (A := A) .func (A.functionList resolve).toArray (fun _ name f => ({ f with name } : Function σ))
    (fun f => { f with name := some e.name }) done e fun _ _ _ => rfl

theorem memoryTable_concat (done : List ExportEntry) (e : ExportEntry) :
    { A with exports := done ++ [e] }.memoryTable =
      if e.kind = .memory then { A with exports := done }.memoryTable.modify e.index fun m => { m with name := some e.name }
      else { A with exports := done }.memoryTable :=
  named_concat (A := A) .memory A.memoryLimits.toArray (fun i name limits => Memory.holding limits name (A.segments i))
    (fun m => { m with name := some e.name }) done e fun _ _ _ => rfl

theorem globalTable_concat (done : List ExportEntry) (e : ExportEntry) :
    { A with exports := done ++ [e] }.globalTable =
      if e.kind = .global then { A with exports := done }.globalTable.modify e.index fun g => { g with name := some e.name }
      else { A with exports := done }.globalTable :=
  named_concat (A := A) .global A.globalList.toArray (fun _ name g => ({ g with name } : Global))
    (fun g => { g with name := some e.name }) done e fun _ _ _ => rfl

theorem notices_concat (done : List ExportEntry) (e : ExportEntry) :
    { A with exports := done ++ [e] }.notices =
      if e.kind = .table then { A with exports := done }.notices.push (.ignoredExport .table e.name)
      else { A with exports := done }.notices := by
  split <;> simp_all [notices]

theorem function?_isSome {types : List FuncType} {e : ImportEntry} :
    (e.function? types resolve).isSome = e.isFunction := by
  unfold ImportEntry.function? ImportEntry.isFunction
  cases e.kind <;> rfl

theorem length_importedFunctions : (A.importedFunctions resolve).length = A.imports.countP ImportEntry.isFunction := by
  simp only [importedFunctions, List.length_filterMap_eq_countP, function?_isSome]

theorem length_globalList : A.globalList.length = A.globalTypes.length := by
  suffices ∀ (entries : List GlobalEntry) (before : List Global),
      (entries.foldl (fun before e => before ++ [e.global before]) before).length = before.length + entries.length by
    rw [globalList, this, globalTypes, List.length_append, List.length_map, List.length_map]
  intro entries
  induction entries with
  | nil => exact fun _ => rfl
  | cons e entries ih =>
    intro before
    rw [List.foldl_cons, ih, List.length_append, List.length_singleton, List.length_cons]
    omega

theorem size_functionTable : (A.functionTable resolve).size = A.count .func := by
  simp [functionTable, functionList, length_importedFunctions, count]

theorem size_memoryTable : A.memoryTable.size = A.count .memory := by simp [memoryTable, count]

theorem size_globalTable : A.globalTable.size = A.count .global := by simp [globalTable, length_globalList, count]

end Outline

namespace Load
variable {resolve : Resolver σ} {options : Options} {p : Progress} {base : Nat} {A : Outline}

/-- An index is compared with the size of its table, and the table changed only if it is below. -/
theorem guarded_loading {size count index : Nat} {defect : Defect} {l l' l'' : Loading σ} {p : Prop} (same : size = count)
    (changed : l' = l'') (away : ¬p) :
    Ensures (fun m => m = l) (if index < size then set l' else refuse base defect : Load σ Unit)
      (fun _ m => (p ∨ index < count) ∧ m = l'') fun _ => ¬(p ∨ index < count) := by
  subst same changed
  by_cases inside : index < size
  · rw [if_pos inside]
    exact fun _ _ => ⟨.inr inside, rfl⟩
  · rw [if_neg inside]
    exact fun _ _ => not_or.mpr ⟨away, inside⟩

/-- An entry names what it is about, and leaves all else. -/
theorem exportEntry_loading (done : List ExportEntry) (e : ExportEntry) :
    Ensures (fun l => l = { A with exports := done }.loading resolve options p) (exportEntry base e)
      (fun _ l => (e.kind = .table ∨ e.index < A.count e.kind) ∧
        l = { A with exports := done ++ [e] }.loading resolve options p)
      fun _ => ¬(e.kind = .table ∨ e.index < A.count e.kind) := by
  rintro l rfl
  unfold exportEntry
  rw [bind_ok (get_apply _)]
  have functions := Outline.functionTable_concat (A := A) resolve done e
  have memories := Outline.memoryTable_concat (A := A) done e
  have globals := Outline.globalTable_concat (A := A) done e
  have notices := Outline.notices_concat (A := A) done e
  obtain ⟨name, kind, index⟩ := e
  cases kind with
  | func =>
    refine guarded_loading Outline.size_functionTable ?_ nofun _ rfl
    simp [Outline.loading, Outline.module, Outline.store, functions, memories, globals, notices, Outline.dataTable]
  | memory =>
    refine guarded_loading Outline.size_memoryTable ?_ nofun _ rfl
    simp [Outline.loading, Outline.module, Outline.store, functions, memories, globals, notices, Outline.dataTable]
  | global =>
    refine guarded_loading Outline.size_globalTable ?_ nofun _ rfl
    simp [Outline.loading, Outline.module, Outline.store, functions, memories, globals, notices, Outline.dataTable]
  | table =>
    refine ⟨.inl rfl, ?_⟩
    simp [Outline.loading, Outline.module, Outline.store, functions, memories, globals, notices, Outline.dataTable]

end Load
end Wasm
