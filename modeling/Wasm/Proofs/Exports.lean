import Wasm.Module.Session
import Wasm.Proofs.Container
import Wasm.Proofs.Unambiguous
import Mathlib.Data.List.Nodup

/-! Finding functions by name. An export gives a function its name, and a function has one name only. So the last export
    of a function decides, and the names that it had before find nothing. -/

namespace Wasm
variable {σ : Type}

namespace Outline
variable {A : Outline} {kind : ExportKind} {name : String} {i j : Nat}

/-- Something is exported under a name, and not under another one later on. -/
def Names (A : Outline) (kind : ExportKind) (name : String) (i : Nat) : Prop :=
  ∃ before after, A.exports = before ++ ⟨name, kind, i⟩ :: after ∧ ∀ e ∈ after, ¬(e.kind = kind ∧ e.index = i)

theorem Names.mem (h : A.Names kind name i) : ⟨name, kind, i⟩ ∈ A.exports := by
  obtain ⟨before, after, split, -⟩ := h
  rw [split]
  exact List.mem_append_right _ List.mem_cons_self

theorem nameOf_eq_some : A.nameOf kind i = some name ↔ A.Names kind name i := by
  unfold nameOf
  constructor
  · intro h
    obtain ⟨⟨_, _, _⟩, found, rfl⟩ := Option.map_eq_some_iff.mp h
    obtain ⟨here, later, earlier, split, none⟩ := List.find?_eq_some_iff_append.mp found
    obtain ⟨rfl, rfl⟩ := of_decide_eq_true here
    refine ⟨earlier.reverse, later.reverse, ?_, fun e member => ?_⟩
    · rw [← List.reverse_reverse A.exports, split]
      simp
    · simpa only [Bool.not_eq_true', decide_eq_false_iff_not] using none e (List.mem_reverse.mp member)
  · rintro ⟨before, after, split, none⟩
    refine Option.map_eq_some_iff.mpr ⟨⟨name, kind, i⟩, List.find?_eq_some_iff_append.mpr ⟨by simp, after.reverse,
      before.reverse, by simp [split], fun e member => ?_⟩, rfl⟩
    simpa only [Bool.not_eq_true', decide_eq_false_iff_not] using none e (List.mem_reverse.mp member)

/-- What is exported has a name in the end. -/
theorem exists_names {e : ExportEntry} (h : e ∈ A.exports) : ∃ name, A.Names e.kind name e.index := by
  have found : (A.exports.reverse.find? fun e' => e'.kind = e.kind ∧ e'.index = e.index).isSome :=
    List.find?_isSome.mpr ⟨e, List.mem_reverse.mpr h, by simp⟩
  obtain ⟨last, found⟩ := Option.isSome_iff_exists.mp found
  exact ⟨last.name, nameOf_eq_some.mp (by rw [nameOf, found]; rfl)⟩

/-- A name that is exported once names one thing at most. -/
theorem Names.unique (distinct : (A.exports.map (·.name)).Nodup) (h : A.Names kind name i) (h' : A.Names kind name j) :
    i = j :=
  congrArg ExportEntry.index (List.inj_on_of_nodup_map distinct h.mem h'.mem rfl)

theorem functionTable_name {resolve : Resolver σ} (inside : i < (A.functionTable resolve).size) :
    (A.functionTable resolve)[i].name = A.nameOf .func i :=
  congrArg Function.name (Array.getElem_mapIdx inside)

end Outline

namespace Module
variable {A : Outline} {resolve : Resolver σ} {options : Options} {bytes : ByteArray} {l : Loading σ} {name : String}
  {i : Nat} {m : Module σ}

theorem find?_eq_some (given : A.Gives resolve options l) (right : A.WellFormed)
    (distinct : (A.exports.map (·.name)).Nodup) : l.module.find? name = some i ↔ A.Names .func name i := by
  have table : l.module.functions = A.functionTable resolve := by
    rw [given.module]
    rfl
  have named : ∀ j (inside : j < (A.functionTable resolve).size),
      ((A.functionTable resolve)[j].name == some name) = true ↔ A.Names .func name j := fun j inside => by
    rw [beq_iff_eq, Outline.functionTable_name, Outline.nameOf_eq_some]
  unfold find?
  rw [table, Array.findIdx?_eq_some_iff_getElem]
  constructor
  · rintro ⟨inside, here, -⟩
    exact (named i inside).mp here
  · intro names
    have inside : i < (A.functionTable resolve).size := by
      rw [Outline.size_functionTable]
      exact (right .exports _ names.mem).resolve_left nofun
    refine ⟨inside, (named i inside).mpr names, fun j before found => ?_⟩
    exact Nat.ne_of_lt before (((named j _).mp found).unique distinct names)

theorem lookup_found (h : m.find? name = some i) : m.lookup name = .ok i := by
  unfold lookup
  rw [h]

theorem lookup_missing (h : m.find? name = none) : m.lookup name = .error (.noExport name) := by
  unfold lookup
  rw [h]

/-- Where all exports of a module have different names, a name finds the function that it is the last name of, and any
    other name finds nothing. Each exported function is found under some name. -/
theorem lookup_exported (accepted : decode bytes options resolve = .ok () l) {sections : List Section}
    (spelled : Section.SpelledModule sections bytes.data.toList)
    (distinct : ((Outline.of sections).exports.map (·.name)).Nodup) :
    (∀ name i, l.module.lookup name = .ok i ↔ (Outline.of sections).Names .func name i) ∧
      (∀ name, (∀ i, ¬(Outline.of sections).Names .func name i) → l.module.lookup name = .error (.noExport name)) ∧
      ∀ e ∈ (Outline.of sections).exports, e.kind = .func → ∃ name, l.module.lookup name = .ok e.index := by
  obtain ⟨_, spelled', -, right, given⟩ := decode_sound accepted
  obtain rfl := spelled.unique spelled'
  have found : ∀ name i, l.module.find? name = some i ↔ (Outline.of sections).Names .func name i := fun _ _ =>
    find?_eq_some given right distinct
  refine ⟨fun name i => ⟨fun finds => ?_, fun names => lookup_found ((found name i).mpr names)⟩, fun name unnamed => ?_,
    fun e member func => ?_⟩
  · cases first : l.module.find? name with
    | none => cases finds.symm.trans (lookup_missing first)
    | some j =>
      cases finds.symm.trans (lookup_found first)
      exact (found name i).mp first
  · cases first : l.module.find? name with
    | none => exact lookup_missing first
    | some i => exact (unnamed i ((found name i).mp first)).elim
  · obtain ⟨name, names⟩ := Outline.exists_names member
    exact ⟨name, lookup_found ((found name _).mpr (func ▸ names))⟩

end Module

namespace Aliased
open Spelling

/-- A module with one function, which is exported under two names. -/
def sections : List Section :=
  [.types [⟨[], []⟩], .functions [0], .exports [⟨"a", .func, 0⟩, ⟨"b", .func, 0⟩], .code [⟨[], ⟨#[0x0B]⟩⟩]]

def bytes : ByteArray :=
  ⟨#[0x00, 0x61, 0x73, 0x6D, 1, 0, 0, 0, 1, 4, 1, 0x60, 0, 0, 3, 2, 1, 0, 7, 9, 2, 1, 0x61, 0, 0, 1, 0x62, 0, 0,
    10, 4, 1, 2, 0, 0x0B]⟩

theorem spelled : Section.SpelledModule sections bytes.data.toList := by
  have types : Section.Spelled (.types [⟨[], []⟩]) [1, 4, 1, 0x60, 0, 0] :=
    .mk (u := [4]) (v := [1, 0x60, 0, 0]) rfl (u32_single rfl rfl) <|
      .mk (u := [1]) (u32_single rfl rfl) <| .cons (u := [0x60, 0, 0])
        (.mk (u := [0]) (v := [0]) (.mk (u32_single rfl rfl) .nil) (.mk (u32_single rfl rfl) .nil)) .nil
  have functions : Section.Spelled (.functions [0]) [3, 2, 1, 0] :=
    .mk (u := [2]) (v := [1, 0]) rfl (u32_single rfl rfl) <|
      .mk (u := [1]) (u32_single rfl rfl) (.cons (u := [0]) (u32_single rfl rfl) .nil)
  have exports : Section.Spelled (.exports [⟨"a", .func, 0⟩, ⟨"b", .func, 0⟩]) [7, 9, 2, 1, 0x61, 0, 0, 1, 0x62, 0, 0] :=
    .mk (u := [9]) (v := [2, 1, 0x61, 0, 0, 1, 0x62, 0, 0]) rfl (u32_single rfl rfl) <|
      .mk (u := [2]) (u32_single rfl rfl) <| .cons (u := [1, 0x61, 0, 0])
        (.mk (u := [1, 0x61]) (v := [0]) (.mk (u := [1]) (u32_single rfl rfl)) (u32_single rfl rfl)) <|
        .cons (u := [1, 0x62, 0, 0])
          (.mk (u := [1, 0x62]) (v := [0]) (.mk (u := [1]) (u32_single rfl rfl)) (u32_single rfl rfl)) .nil
  have body : CodeEntry.SpelledBody ⟨[], ⟨#[0x0B]⟩⟩ [0, 0x0B] :=
    @CodeEntry.SpelledBody.mk [] [0] _ (.mk (u := [0]) (u32_single rfl rfl) .nil) (by decide)
  have code : Section.Spelled (.code [⟨[], ⟨#[0x0B]⟩⟩]) [10, 4, 1, 2, 0, 0x0B] :=
    .mk (u := [4]) (v := [1, 2, 0, 0x0B]) rfl (u32_single rfl rfl) <|
      .mk (u := [1]) (u32_single rfl rfl) <| .cons (u := [2, 0, 0x0B]) (.mk (u := [2]) (u32_single rfl rfl) body) .nil
  exact .mk (.cons types (.cons functions (.cons exports (.cons code .nil))))

theorem right : (Outline.of sections).WellFormed := by
  intro kind
  cases kind with
  | functions => exact List.forall_mem_singleton.mpr (by decide)
  | exports => exact List.forall_mem_cons.mpr ⟨.inr (by decide), List.forall_mem_singleton.mpr (.inr (by decide))⟩
  | code => rfl
  | globals =>
    intro before e after same
    cases before <;> cases same
  | imports | memories | data => nofun
  | _ => trivial

end Aliased

/-- The second name finds the function, as all that is said of names holds. -/
theorem Module.lookup_exported_aliased : ∃ l, decode Aliased.bytes {} (Resolver.none (σ := Unit)) = .ok () l ∧
    Section.SpelledModule Aliased.sections Aliased.bytes.data.toList ∧
    ((Outline.of Aliased.sections).exports.map (·.name)).Nodup ∧
    (∀ name i, l.module.lookup name = .ok i ↔ (Outline.of Aliased.sections).Names .func name i) ∧
    l.module.lookup "b" = .ok 0 := by
  obtain ⟨l, done, -⟩ : ∃ l, decode Aliased.bytes {} (Resolver.none (σ := Unit)) = .ok () l ∧ _ :=
    decode_complete (by decide) Aliased.spelled (by decide) Aliased.right
  have distinct : ((Outline.of Aliased.sections).exports.map (·.name)).Nodup := by decide
  have finds := (lookup_exported done Aliased.spelled distinct).1
  exact ⟨l, done, Aliased.spelled, distinct, finds, (finds "b" 0).mpr ⟨[⟨"a", .func, 0⟩], [], rfl, nofun⟩⟩

/-- The first name is an export too, and finds nothing. -/
theorem Module.lookup_aliased_missing : ∃ l, decode Aliased.bytes {} (Resolver.none (σ := Unit)) = .ok () l ∧
    Section.SpelledModule Aliased.sections Aliased.bytes.data.toList ∧
    ((Outline.of Aliased.sections).exports.map (·.name)).Nodup ∧
    ⟨"a", .func, 0⟩ ∈ (Outline.of Aliased.sections).exports ∧
    l.module.lookup "a" = .error (.noExport "a") := by
  obtain ⟨l, done, given⟩ : ∃ l, decode Aliased.bytes {} (Resolver.none (σ := Unit)) = .ok () l ∧
      (Outline.of Aliased.sections).Gives Resolver.none {} l :=
    decode_complete (by decide) Aliased.spelled (by decide) Aliased.right
  refine ⟨l, done, Aliased.spelled, by decide, List.mem_cons_self, ?_⟩
  rw [given.module]
  exact lookup_missing (by decide +kernel)

end Wasm
