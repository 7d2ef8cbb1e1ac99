import Std.Data.TreeMap.Lemmas
import Wasm.Proofs.Look
import Wasm.Module.Basic

/-! The jump table of a body. There is one just if all of the body is structured code, and then it has one entry for
    each construct of that code and no other. -/

namespace Wasm

/-! ### Entries -/

namespace Construct

/-- An if without an else goes to its end where others go to their else. -/
def ifLink? : Construct → Option (Nat × (Nat × Nat))
  | ⟨.ifThen, start, otherwise, stop⟩ => some (start, (otherwise.getD stop, stop))
  | _ => none

def blockLink? : Construct → Option (Nat × Nat)
  | ⟨.block, start, _, stop⟩ => some (start, stop)
  | _ => none

def loopLink? : Construct → Option (Nat × Nat)
  | ⟨.loop, start, _, stop⟩ => some (stop, start)
  | _ => none

def loopEndLink? : Construct → Option (Nat × Nat)
  | ⟨.loop, start, _, stop⟩ => some (start, stop)
  | _ => none

end Construct

namespace JumpTable
variable {α : Type}

/-- The entries of a map are those that some constructs have. -/
def Maps (map : Std.TreeMap Nat α) (link? : Construct → Option (Nat × α)) (cs : List Construct) : Prop :=
  ∀ pos a, map[pos]? = some a ↔ ∃ c ∈ cs, link? c = some (pos, a)

/-- The entries of a table are those of some constructs. -/
structure Lists (t : JumpTable) (cs : List Construct) : Prop where
  ifs : Maps t.ifs Construct.ifLink? cs
  blocks : Maps t.blocks Construct.blockLink? cs
  loops : Maps t.loops Construct.loopLink? cs
  loopEnds : Maps t.loopEnds Construct.loopEndLink? cs

/-- Enters a construct whose end has been seen. -/
def add (t : JumpTable) (c : Construct) : JumpTable := t.close ⟨c.kind, c.start, c.otherwise⟩ c.stop

/-- The table with the entries of some constructs. -/
def ofConstructs (cs : List Construct) : JumpTable := cs.foldl add {}

theorem Maps.empty (link? : Construct → Option (Nat × α)) : Maps {} link? [] := by
  intro pos a
  simp

theorem Maps.skip {map : Std.TreeMap Nat α} {link? : Construct → Option (Nat × α)} {cs : List Construct} {c : Construct}
    (h : Maps map link? cs) (none : link? c = none) : Maps map link? (cs ++ [c]) := by
  intro pos a
  rw [h pos a]
  constructor
  · rintro ⟨d, hd, entry⟩
    exact ⟨d, List.mem_append_left _ hd, entry⟩
  · rintro ⟨d, hd, entry⟩
    rcases List.mem_append.mp hd with hd | hd
    · exact ⟨d, hd, entry⟩
    · rw [List.mem_singleton.mp hd, none] at entry
      cases entry

theorem Maps.insert {map : Std.TreeMap Nat α} {link? : Construct → Option (Nat × α)} {cs : List Construct} {c : Construct}
    {key : Nat} {value : α} (h : Maps map link? cs) (own : link? c = some (key, value))
    (fresh : ∀ d ∈ cs, ∀ a, link? d ≠ some (key, a)) : Maps (map.insert key value) link? (cs ++ [c]) := by
  intro pos a
  rw [Std.TreeMap.getElem?_insert]
  by_cases same : key = pos
  · subst same
    rw [if_pos (Nat.compare_eq_eq.mpr rfl)]
    constructor
    · intro eq
      cases eq
      exact ⟨c, List.mem_append_right _ (List.mem_singleton_self c), own⟩
    · rintro ⟨d, hd, entry⟩
      rcases List.mem_append.mp hd with hd | hd
      · exact absurd entry (fresh d hd a)
      · rw [List.mem_singleton.mp hd, own] at entry
        cases entry
        rfl
  · rw [if_neg fun eq => same (Nat.compare_eq_eq.mp eq), h pos a]
    constructor
    · rintro ⟨d, hd, entry⟩
      exact ⟨d, List.mem_append_left _ hd, entry⟩
    · rintro ⟨d, hd, entry⟩
      rcases List.mem_append.mp hd with hd | hd
      · exact ⟨d, hd, entry⟩
      · rw [List.mem_singleton.mp hd, own] at entry
        cases entry
        exact absurd rfl same

theorem Lists.empty : Lists {} [] := ⟨.empty _, .empty _, .empty _, .empty _⟩

theorem Lists.add {t : JumpTable} {cs : List Construct} {c : Construct} (h : t.Lists cs)
    (apart : ∀ d ∈ cs, d.Apart c) : (t.add c).Lists (cs ++ [c]) := by
  obtain ⟨kind, start, otherwise, stop⟩ := c
  have freshStart : ∀ d ∈ cs, d.start ≠ start := fun d hd => (apart d hd).1
  have freshStop : ∀ d ∈ cs, d.stop ≠ stop := fun d hd => (apart d hd).2
  cases kind with
  | block =>
    refine ⟨h.ifs.skip rfl, h.blocks.insert rfl ?_, h.loops.skip rfl, h.loopEnds.skip rfl⟩
    rintro ⟨_ | _ | _, _, _, _⟩ hd a entry <;> cases entry
    exact freshStart _ hd rfl
  | loop =>
    refine ⟨h.ifs.skip rfl, h.blocks.skip rfl, h.loops.insert rfl ?_, h.loopEnds.insert rfl ?_⟩
    · rintro ⟨_ | _ | _, _, _, _⟩ hd a entry <;> cases entry
      exact freshStop _ hd rfl
    · rintro ⟨_ | _ | _, _, _, _⟩ hd a entry <;> cases entry
      exact freshStart _ hd rfl
  | ifThen =>
    refine ⟨h.ifs.insert rfl ?_, h.blocks.skip rfl, h.loops.skip rfl, h.loopEnds.skip rfl⟩
    rintro ⟨_ | _ | _, _, _, _⟩ hd a entry <;> cases entry
    exact freshStart _ hd rfl

theorem Lists.foldl {t : JumpTable} {cs ds : List Construct} (h : t.Lists cs) (apart : (cs ++ ds).Pairwise Construct.Apart) :
    (ds.foldl JumpTable.add t).Lists (cs ++ ds) := by
  induction ds generalizing t cs with
  | nil =>
    rw [List.append_nil]
    exact h
  | cons d ds ih =>
    rw [List.append_cons] at apart ⊢
    rw [List.foldl_cons]
    refine ih (h.add fun c hc => ?_) apart
    have := (List.pairwise_append.mp apart).1
    exact (List.pairwise_append.mp this).2.2 c hc d (List.mem_singleton_self d)

/-- From a loop to its end and back. -/
theorem Lists.loops_inverse {t : JumpTable} {cs : List Construct} (h : t.Lists cs) (start stop : Nat) :
    t.loopEnds[start]? = some stop ↔ t.loops[stop]? = some start := by
  rw [h.loopEnds start stop, h.loops stop start]
  constructor
  · rintro ⟨⟨_ | _ | _, _, _, _⟩, hc, entry⟩ <;> cases entry
    exact ⟨_, hc, rfl⟩
  · rintro ⟨⟨_ | _ | _, _, _, _⟩, hc, entry⟩ <;> cases entry
    exact ⟨_, hc, rfl⟩

/-! ### Code that the look passes -/

section Look
variable {body : ByteArray} {pos last : Nat} {code : Code}

/-- Passing code enters its constructs, and leaves those open that were open before. -/
theorem look_laid (h : Laid body pos code last) (t : JumpTable) (opened : List Opening) :
    look body pos ⟨t, opened⟩ = look body last ⟨code.constructs.foldl add t, opened⟩ := by
  induction h generalizing t opened with
  | done => rfl
  | simple read _ ih => rw [look_simple read, ih, Code.constructs]
  | block read _ close _ ih₁ ih₂ =>
    rw [look_block read, Found.enter, ih₁, look_endMark close, ih₂, Code.constructs, List.foldl_append, List.foldl_cons]
    rfl
  | loop read _ close _ ih₁ ih₂ =>
    rw [look_loop read, Found.enter, ih₁, look_endMark close, ih₂, Code.constructs, List.foldl_append, List.foldl_cons]
    rfl
  | ifThen read _ close _ ih₁ ih₂ =>
    rw [look_ifThen read, Found.enter, ih₁, look_endMark close, ih₂, Code.constructs, Code.constructs, List.append_nil,
      List.foldl_append, List.foldl_cons]
    rfl
  | ifElse read _ mark _ close _ ih₁ ih₂ ih₃ =>
    rw [look_ifThen read, Found.enter, ih₁, look_elseMark mark, ih₂, look_endMark close, ih₃, Code.constructs,
      List.foldl_append, List.foldl_append, List.foldl_cons]
    rfl

theorem look_whole (h : Whole body code) : look body 0 {} = .ok (ofConstructs code.constructs) := by
  obtain ⟨stop, laid, close⟩ := h
  rw [look_laid laid, look_last close]
  rfl

/-- A body that stops too early is found out at its very end. -/
theorem look_unfinished (h : Unfinished body pos) (f : Found) :
    look body pos f = .error (.unbalancedBlock body.size) := by
  induction h generalizing f with
  | code laid => rw [look_laid laid, look_past (Nat.le_refl _)]
  | block laid read _ ih => rw [look_laid laid, look_block read, ih]
  | loop laid read _ ih => rw [look_laid laid, look_loop read, ih]
  | ifThen laid read _ ih => rw [look_laid laid, look_ifThen read, ih]
  | ifElse laid read first mark _ ih =>
    rw [look_laid laid, look_ifThen read, Found.enter, look_laid first, look_elseMark mark, ih]

/-! ### Code that the look has found -/

theorem inside_of_look {f : Found} {t : JumpTable} (h : look body pos f = .ok t) :
    ∃ i next, Instr.read body pos = .ok i next := by
  by_cases past : body.size ≤ pos
  · rw [look_past past] at h
    cases h
  · cases read : Instr.read body pos with
    | ok i next => exact ⟨i, next, rfl⟩
    | error e next =>
      rw [look_unread (Nat.lt_of_not_le past) read] at h
      cases h

/-- An else belongs to the innermost construct, an if that has none yet. -/
theorem elseMark_of_look {t t' : JumpTable} {opened : List Opening} {next : Nat} (h : look body pos ⟨t, opened⟩ = .ok t')
    (read : Instr.read body pos = .ok .elseMark next) : ∃ start rest, opened = ⟨.ifThen, start, none⟩ :: rest := by
  rw [look_read read, if_neg (by simp)] at h
  rcases opened with _ | ⟨⟨kind, start, otherwise⟩, rest⟩
  · cases h
  · cases kind <;> cases otherwise <;> try cases h
    exact ⟨start, rest, rfl⟩

/-- The end that no construct awaits is the last byte. -/
theorem endMark_of_look {t t' : JumpTable} {next : Nat} (h : look body pos ⟨t, []⟩ = .ok t')
    (read : Instr.read body pos = .ok .endMark next) : next = body.size := by
  have bounds := Instr.read_bounds read
  by_cases last : body.size ≤ next
  · omega
  · rw [look_read read, if_neg fun h => last h.2.2] at h
    cases h

/-- There is code from a position on up to a mark. -/
def ToMark (body : ByteArray) (pos : Nat) (code : Code) (last : Nat) (mark : Instr) (next : Nat) : Prop :=
  Laid body pos code last ∧ Instr.read body last = .ok mark next ∧ (mark = .elseMark ∨ mark = .endMark)

/-- The code of a construct, once the look has passed the opening: it comes to the end, or to an else if there may
    still be one. -/
theorem ToMark.ends {o : Opening} {opened : List Opening} {t t' : JumpTable} {mark : Instr} {next : Nat}
    (h : ToMark body pos code last mark next) (ok : look body pos ⟨t, o :: opened⟩ = .ok t')
    (noElse : ¬(o.kind = .ifThen ∧ o.otherwise = none)) : mark = .endMark := by
  obtain ⟨laid, read, rfl | rfl⟩ := h
  · rw [look_laid laid] at ok
    obtain ⟨start, rest, eq⟩ := elseMark_of_look ok read
    cases eq
    exact absurd ⟨rfl, rfl⟩ noElse
  · rfl

theorem toMark_of_look {f : Found} {t : JumpTable} (h : look body pos f = .ok t) :
    ∃ code last mark next, ToMark body pos code last mark next := by
  induction left : body.size - pos using Nat.strongRecOn generalizing pos f with
  | ind n ih =>
    obtain ⟨i, next, read⟩ := inside_of_look h
    have bounds := Instr.read_bounds read
    obtain ⟨table, opened⟩ := f
    rcases i.shape with ⟨s, rfl⟩ | ⟨type, rfl⟩ | ⟨type, rfl⟩ | ⟨type, rfl⟩ | mark
    · rw [look_simple read] at h
      obtain ⟨rest, last, mark, after, laid, end_⟩ := ih _ (by omega) h rfl
      exact ⟨.simple s rest, last, mark, after, .simple read laid, end_⟩
    · rw [look_block read, Found.enter] at h
      obtain ⟨inner, stop, mark, next', reached⟩ := ih _ (by omega) h rfl
      -- A block takes no else, so that the mark can only be an end.
      cases reached.ends h (by simp)
      obtain ⟨inside, close, -⟩ := reached
      have closes := Instr.read_bounds close
      have forth := inside.le
      rw [look_laid inside, look_endMark close] at h
      obtain ⟨rest, last, mark, after, laid, end_⟩ := ih _ (by omega) h rfl
      exact ⟨_, last, mark, after, .block read inside close laid, end_⟩
    · rw [look_loop read, Found.enter] at h
      obtain ⟨inner, stop, mark, next', reached⟩ := ih _ (by omega) h rfl
      cases reached.ends h (by simp)
      obtain ⟨inside, close, -⟩ := reached
      have closes := Instr.read_bounds close
      have forth := inside.le
      rw [look_laid inside, look_endMark close] at h
      obtain ⟨rest, last, mark, after, laid, end_⟩ := ih _ (by omega) h rfl
      exact ⟨_, last, mark, after, .loop read inside close laid, end_⟩
    · rw [look_ifThen read, Found.enter] at h
      obtain ⟨first, middle, mark, next', inside, close, rfl | rfl⟩ := ih _ (by omega) h rfl
      -- An else has been found, and behind it the look goes on to the end of the second arm.
      · have between := Instr.read_bounds close
        have forth := inside.le
        rw [look_laid inside, look_elseMark close] at h
        obtain ⟨second, stop, mark, next'', reached⟩ := ih _ (by omega) h rfl
        cases reached.ends h (by simp)
        obtain ⟨inside', close', -⟩ := reached
        have closes := Instr.read_bounds close'
        have forth' := inside'.le
        rw [look_laid inside', look_endMark close'] at h
        obtain ⟨rest, last, mark, after, laid, end_⟩ := ih _ (by omega) h rfl
        exact ⟨_, last, mark, after, .ifElse read inside close inside' close' laid, end_⟩
      · have closes := Instr.read_bounds close
        have forth := inside.le
        rw [look_laid inside, look_endMark close] at h
        obtain ⟨rest, last, mark, after, laid, end_⟩ := ih _ (by omega) h rfl
        exact ⟨_, last, mark, after, .ifThen read inside close laid, end_⟩
    · exact ⟨.done, pos, i, next, .done, read, mark⟩

theorem whole_of_look {t : JumpTable} (h : look body 0 {} = .ok t) : ∃ code, Whole body code := by
  obtain ⟨code, last, mark, next, laid, read, rfl | rfl⟩ := toMark_of_look h
  · rw [look_laid laid] at h
    obtain ⟨start, rest, eq⟩ := elseMark_of_look h read
    cases eq
  · rw [look_laid laid] at h
    cases endMark_of_look h read
    exact ⟨code, last, laid, read⟩

end Look

/-! ### The table -/

section Build
variable (signatures : Array FuncType) (signature : FuncType) (locals : List ValType) (live : Store)

theorem build_whole {body : ByteArray} {code : Code} (h : Whole body code) :
    build signatures signature locals body live = .ok (ofConstructs code.constructs) := by
  rw [build_eq_look, look_whole h]

theorem lists_of_whole {body : ByteArray} {code : Code} (h : Whole body code) :
    (ofConstructs code.constructs).Lists code.constructs := by
  obtain ⟨stop, laid, -⟩ := h
  exact Lists.empty.foldl laid.constructs_pairwise

/-- A table that has been built lists the constructs of a body. -/
theorem lists_of_build {body : ByteArray} {t : JumpTable} (h : build signatures signature locals body live = .ok t) :
    ∃ cs, t.Lists cs := by
  rw [build_eq_look] at h
  obtain ⟨code, whole⟩ := whole_of_look h
  rw [look_whole whole] at h
  cases h
  exact ⟨_, lists_of_whole whole⟩

/-- A body has a jump table just if it is code up to its very last byte, which ends the function. The table has one
    entry for each construct of that code, and no other. It does not matter what it is built on. A body that stops
    before the end of the function has none. -/
theorem build_exact (body : ByteArray) :
    ((∃ t, build signatures signature locals body live = .ok t) ↔ ∃ code, Whole body code) ∧
    (∀ (t : JumpTable) (code : Code), build signatures signature locals body live = .ok t → Whole body code →
      t.Lists code.constructs ∧ code.constructs.Pairwise Construct.Apart ∧
      ∀ start stop : Nat, t.loopEnds[start]? = some stop ↔ t.loops[stop]? = some start) ∧
    (∀ signatures' signature' locals' live',
      build signatures' signature' locals' body live' = build signatures signature locals body live) ∧
    (Unfinished body 0 → build signatures signature locals body live = .error (.unbalancedBlock body.size)) := by
  refine ⟨⟨?_, ?_⟩, ?_, ?_, ?_⟩
  · rintro ⟨t, h⟩
    rw [build_eq_look] at h
    exact whole_of_look h
  · rintro ⟨code, whole⟩
    exact ⟨_, build_whole signatures signature locals live whole⟩
  · intro t code h whole
    rw [build_whole signatures signature locals live whole] at h
    cases h
    have lists := lists_of_whole whole
    obtain ⟨stop, laid, -⟩ := whole
    exact ⟨lists, laid.constructs_pairwise, lists.loops_inverse⟩
  · intro signatures' signature' locals' live'
    rw [build_eq_look, build_eq_look]
  · intro unfinished
    rw [build_eq_look]
    exact look_unfinished unfinished {}

/-- An if with an else, in a body that then ends. -/
theorem build_exact_ifElse :
    ∃ t : JumpTable, build #[] ⟨[], []⟩ [] ⟨#[0x04, 0x40, 0x05, 0x0B, 0x0B]⟩ {} = .ok t ∧
      t.Lists [⟨.ifThen, 0, some 2, 3⟩] := by
  have whole : Whole ⟨#[0x04, 0x40, 0x05, 0x0B, 0x0B]⟩ (.ifThen 0 (some 2) 3 .empty .done .done .done) := by
    refine ⟨4, .ifElse (Instr.read_of_find? (by decide) rfl rfl) .done (Instr.read_of_find? (by decide) rfl rfl) .done
      (Instr.read_of_find? (by decide) rfl rfl) .done, Instr.read_of_find? (by decide) rfl rfl⟩
  obtain ⟨succeeds, lists, -, -⟩ := build_exact #[] ⟨[], []⟩ [] {} ⟨#[0x04, 0x40, 0x05, 0x0B, 0x0B]⟩
  obtain ⟨t, built⟩ := succeeds.mpr ⟨_, whole⟩
  exact ⟨t, built, (lists t _ built whole).1⟩

end Build

end JumpTable

/-! ### The tables of a module -/

variable {σ : Type}

/-- The jump tables of a module are those of its functions. -/
def Module.Tabled (m : Module σ) : Prop := ∃ live, m.withJumps live = m

theorem Module.withJumps_tabled (m : Module σ) (live : Store) : (m.withJumps live).Tabled := ⟨live, rfl⟩

theorem Module.function_eq_ok {m : Module σ} {index : Nat} {f : Function σ} :
    m.function index = .ok f ↔ m.functions[index]? = some f := by
  unfold Module.function
  cases m.functions[index]? <;> simp

theorem Module.jumpTable_withJumps (m : Module σ) (live : Store) {index : Nat} {f : Function σ}
    (found : m.functions[index]? = some f) : (m.withJumps live).jumpTable index = f.jumpTable m.signatures live index := by
  unfold Module.jumpTable Module.withJumps
  dsimp only
  rw [Array.getElem?_mapIdx, found]
  rfl

/-- The table of a function with code is the one of its body. -/
theorem Module.Tabled.table {m : Module σ} (h : m.Tabled) {index : Nat} {f : Function σ} {bytes : ByteArray} {t : JumpTable}
    (function : m.function index = .ok f) (body : f.body = .code bytes) (table : m.jumpTable index = .ok t) :
    ∃ live, JumpTable.build m.signatures f.signature f.locals bytes live = .ok t := by
  obtain ⟨live, tabled⟩ := h
  rw [← tabled, m.jumpTable_withJumps live (Module.function_eq_ok.mp function)] at table
  unfold Function.jumpTable at table
  rw [body] at table
  exact ⟨live, table⟩

end Wasm
