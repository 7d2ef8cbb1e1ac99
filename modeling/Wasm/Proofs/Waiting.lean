import Wasm.Proofs.Typing
import Wasm.Proofs.Construct

/-! Activations of valid functions. The constructs that an activation is in wait for the results of the code inside, each
    with some operands below: an activation stands where the code that is left takes its operands to those results. -/

namespace Wasm
variable {σ : Type}

open Run

namespace Activation

/-- What the code up to a position is followed by: the end of the function or of the innermost construct, or the else
    after the first arm of an if. -/
inductive EndsAt (act : Activation) : List Label → Nat → Prop
  | body {last next} : Instr.read act.body last = .ok .endMark next → EndsAt act [] last
  | construct {L outer next} : Instr.read act.body L.stop = .ok .endMark next → EndsAt act (L :: outer) L.stop
  | arm {L outer last next next'} : L.kind = .ifThen → Instr.read act.body last = .ok .elseMark next →
      Instr.read act.body L.stop = .ok .endMark next' → EndsAt act (L :: outer) last

/-- The code from a position on takes the operands to the results. -/
def Ready (C : Context) (act : Activation) (labels : List Label) (types : List (List ValType)) (pos : Nat)
    (operands out : List ValType) : Prop :=
  ∃ code last, act.Carries pos code last ∧ act.EndsAt labels last ∧ Valid C types code (known operands) out

/-- A construct with `outer` ones around it and `base` below its parameters. A branch to it takes along values of the types
    `carried`, its results are `own`, and those of what it is in are `out`. -/
structure Around (C : Context) (act : Activation) (L : Label) (outer : List Label) (types : List (List ValType))
    (base carried own out : List ValType) : Prop where
  results : L.results = own
  arity : L.arity = carried.length
  carries : L.kind ≠ .loop → carried = own
  ends : ∃ next, Instr.read act.body L.stop = .ok .endMark next
  after : act.Ready C outer types (L.stop + 1) (base ++ own) out
  again : L.kind = .loop → ∃ start, act.jumps.loopStart? L.stop = some start ∧
    act.Ready C outer types start (base ++ carried) out

/-- The constructs of an activation wait for results of the types `own`, with `below` under the operands of the innermost
    one. -/
inductive Waits (C : Context) (act : Activation) : List Label → List (List ValType) → (own below : List ValType) → Prop
  | body : Waits C act [] [C.results] C.results []
  | construct {L outer types base carried own out below} : act.Around C L outer types base carried own out →
      L.height = act.frame.offset + (C.locals ++ (below ++ base)).length → Waits C act outer types out below →
      Waits C act (L :: outer) (carried :: types) own (below ++ base)

/-- At the position and in the constructs, the activation can go on with the operands. -/
def Stands (C : Context) (act : Activation) (pos : Nat) (labels : List Label) (operands : List ValType) : Prop :=
  ∃ types out below current, operands = below ++ current ∧ act.Waits C labels types out below ∧
    act.Ready C labels types pos current out

/-- The activation belongs to a function of the context, and owns what is above some values. -/
structure Belongs (C : Context) (act : Activation) (under : Array Value) : Prop where
  offset : act.frame.offset = under.size
  locals : act.frame.locals = C.locals.length
  results : act.results = C.results

variable {C : Context} {act : Activation} {labels : List Label} {types : List (List ValType)} {pos last depth : Nat}
  {operands own below carried out : List ValType}

theorem EndsAt.inBody (h : act.EndsAt labels last) : last < act.body.size := by
  cases h with
  | body read => exact Nat.lt_of_lt_of_le (Instr.read_bounds read).1 (Instr.read_bounds read).2
  | construct read => exact Nat.lt_of_lt_of_le (Instr.read_bounds read).1 (Instr.read_bounds read).2
  | arm _ read _ => exact Nat.lt_of_lt_of_le (Instr.read_bounds read).1 (Instr.read_bounds read).2

theorem Ready.inBody (h : act.Ready C labels types pos operands out) : pos ≤ act.body.size := by
  obtain ⟨code, last, carries, ends, -⟩ := h
  exact Nat.le_of_lt (Nat.lt_of_le_of_lt carries.laid.le ends.inBody)

/-- A branch that is valid leads out of the function or to a construct that waits for what it takes along. -/
theorem Waits.target (h : act.Waits C labels types own below) (found : types[depth]? = some carried) :
    (depth = labels.length ∧ carried = C.results) ∨ ∃ L types' below' base between own' out,
      labels[depth]? = some L ∧ below = below' ++ base ++ between ∧
      act.Around C L (labels.drop (depth + 1)) types' base carried own' out ∧
      L.height = act.frame.offset + (C.locals ++ (below' ++ base)).length ∧
      act.Waits C (labels.drop (depth + 1)) types' out below' := by
  induction h generalizing depth with
  | body =>
    cases depth with
    | zero =>
      cases found
      exact .inl ⟨rfl, rfl⟩
    | succ depth => cases found
  | @construct L outer types base _ own out below around height outside ih =>
    cases depth with
    | zero =>
      cases found
      exact .inr ⟨L, types, below, base, [], own, out, rfl, by simp, around, height, outside⟩
    | succ depth =>
      rcases ih found with ⟨rfl, rfl⟩ | ⟨L', types', below', base', between, own', out', label, rfl, around', height', outside'⟩
      · exact .inl ⟨rfl, rfl⟩
      · exact .inr ⟨L', types', below', base', between ++ base, own', out', label, by simp, around', height', outside'⟩

theorem Waits.stands (h : act.Waits C labels types own below) (ready : act.Ready C labels types pos operands own) :
    act.Stands C pos labels (below ++ operands) := ⟨types, own, below, operands, rfl, h, ready⟩

end Activation

/-! ### Operations on machines -/

/-- The stack of the machine has values of the types above some others, and the store is as declared. -/
def Machine.Holds (shape : Shape) (under : Array Value) (ts : List ValType) (M : Machine σ) : Prop :=
  M.store.Holds shape under ts

namespace Run
variable {α : Type} {shape : Shape} {under : Array Value} {ts us : List ValType} {E : Trap → Prop}

theorem onStore_ensures {op : Exec α} {P : Store → Prop} {Q : α → Store → Prop} (h : Ensures P op Q E) :
    Ensures (fun M : Machine σ => P M.store) (onStore op) (fun a M => Q a M.store) E := by
  refine .of_cases (fun M a N holds done => ?_) fun M e N holds failed => ?_
  · obtain ⟨store, ran, rfl⟩ := onStore_eq_ok.mp done
    exact h.ok holds ran
  · obtain ⟨store, stopped, rfl⟩ := onStore_eq_error.mp failed
    exact h.error holds stopped

theorem onStack_holds {op : Stack.Op α} (h : Ensures (Stack.Holds under ts) op (fun _ => Stack.Holds under us) E) :
    Ensures (Machine.Holds (σ := σ) shape under ts) (onStack op) (fun _ => Machine.Holds shape under us) E :=
  onStore_ensures (Store.onStack_holds h)

theorem onStack_gives {op : Stack.Op α} {p : α → Prop}
    (h : Ensures (Stack.Holds under ts) op (fun a s => p a ∧ s.Holds under us) E) :
    Ensures (Machine.Holds (σ := σ) shape under ts) (onStack op) (fun a M => p a ∧ M.Holds shape under us) E :=
  onStore_ensures (Store.onStack_gives h)

theorem store_holds : Ensures (Machine.Holds (σ := σ) shape under ts) store (fun _ => Machine.Holds shape under ts) E :=
  fun _ h => h

theorem notify_holds (n : Notice) :
    Ensures (Machine.Holds (σ := σ) shape under ts) (notify n) (fun _ => Machine.Holds shape under ts) E := fun _ h => h

end Run

theorem BlockType.arity_of_signature {types : Array FuncType} {type : BlockType} {t : FuncType}
    (h : type.signature? types = some t) : type.arity types = .ok (t.params.length, t.results) := by
  cases type with
  | empty =>
    cases h
    rfl
  | result t =>
    cases h
    rfl
  | signature index =>
    unfold arity
    dsimp only
    rw [show types[index]? = some t from h]

namespace Activation
variable {shape : Shape} {under : Array Value} {ts us : List ValType} {E : Trap → Prop}

theorem blockSignature_eq {types : Array FuncType} {type : BlockType} {t : FuncType} (h : type.signature? types = some t)
    (start : Nat) : (blockSignature types type start : Run σ _) = pure (t.params.length, t.results) := by
  unfold blockSignature
  rw [BlockType.arity_of_signature h]

theorem heightBelow_holds (ts us : List ValType) : Ensures (Machine.Holds (σ := σ) shape under (ts ++ us))
    (heightBelow us.length) (fun height M => height = under.size + ts.length ∧ M.Holds shape under (ts ++ us)) E := by
  refine .of_ok fun M holds => ?_
  have size := holds.1.size
  rw [List.length_append] at size
  exact ⟨_, M, heightBelow_eq_ok.mpr ⟨by omega, rfl⟩, rfl, holds⟩

theorem ofExcept_holds {α : Type} {x : Except Trap α} {a : α} (h : x = .ok a) : (ofExcept x : Run σ α) = pure a := by
  rw [h]
  rfl

end Activation

/-! ### Steps -/

/-- What an instruction of an activation leads to: where the activation stands then, where it will stand with the results
    of the function it calls, or that it ends with its own results on top. -/
def Flow.Typed (C : Context) (act : Activation) (under : Array Value) : Flow → Machine σ → Prop
  | next act', M => ∃ pos labels operands, act' = { act with pos, labels } ∧ act.Stands C pos labels operands ∧
      M.Holds C.shape under (C.locals ++ operands)
  | call act' callee, M => ∃ pos labels operands t, act' = { act with pos, labels } ∧ C.functions[callee]? = some t ∧
      act.Stands C pos labels (operands ++ t.results) ∧ M.Holds C.shape under (C.locals ++ operands ++ t.params)
  | ret, M => ∃ operands, M.Holds C.shape under (C.locals ++ operands ++ C.results)

namespace Activation
variable {C : Context} {act : Activation} {under : Array Value} {labels : List Label} {types : List (List ValType)}
  {pos last depth start stop : Nat} {operands own below base carried out : List ValType} {type : BlockType}
  {inner rest first second : Code}

/-- The run goes on with the activation. -/
theorem next_typed (stands : act.Stands C pos labels operands) (M : Machine σ)
    (holds : M.Holds C.shape under (C.locals ++ operands)) :
    (Flow.next { act with pos, labels }).Typed C act under M := ⟨pos, labels, operands, rfl, stands, holds⟩

/-- An operation that gives the activation to go on with. -/
theorem next_of {op : Run σ Activation} {P : Machine σ → Prop}
    (h : Ensures P op (fun a M => (Flow.next a).Typed C act under M) Trap.IsRegular) :
    Ensures P (do return .next (← op)) (Flow.Typed C act under) Trap.IsRegular := h.bind fun _ => .pure fun _ h => h

theorem goto_typed (stands : act.Stands C pos labels operands) (inBody : pos ≤ act.body.size) (at_ : Nat) :
    Ensures (Machine.Holds (σ := σ) C.shape under (C.locals ++ operands)) (goto { act with pos := at_, labels } pos)
      (fun a M => (Flow.next a).Typed C act under M) Trap.IsRegular := by
  rw [goto_ok { act with pos := at_, labels } inBody]
  exact .pure fun M holds => next_typed stands M holds

theorem branch_typed (belongs : act.Belongs C under) (waits : act.Waits C labels types own below)
    (found : types[depth]? = some carried) (conditional : Bool)
    (behind : conditional = true → act.Stands C pos labels (below ++ (base ++ carried))) :
    Ensures (Machine.Holds (σ := σ) C.shape under (C.locals ++ (below ++ (base ++ carried))))
      (branch { act with pos, labels } depth conditional) (Flow.Typed C act under) Trap.IsRegular := by
  unfold branch
  rcases waits.target found with ⟨rfl, rfl⟩ | ⟨L, types', below', lower, between, own', out, label, rfl, around, height, outside⟩
  · rw [if_pos rfl]
    exact .pure fun M holds => ⟨below ++ base, by simpa using holds⟩
  · have inside : depth ≠ labels.length := Nat.ne_of_lt (List.getElem?_eq_some_iff.mp label).1
    rw [if_neg inside]
    dsimp only
    rw [label]
    dsimp only
    have after := outside.stands around.after
    refine store_holds.bind fun s => ?_
    rw [height, belongs.offset]
    split
    · -- The guard stops the branch.
      refine (notify_holds _).bind fun _ => ?_
      split
      · exact .pure fun M holds => next_typed (behind ‹_›) M holds
      · rw [show C.locals ++ (below' ++ lower ++ between ++ (base ++ carried)) =
          C.locals ++ (below' ++ lower) ++ (between ++ (base ++ carried)) by simp]
        refine (onStack_holds (Stack.truncate_holds _ _)).bind fun _ =>
          (onStack_holds (Stack.pushMany_holds (Value.types_zeros _))).bind fun _ => ?_
        rw [around.results, show C.locals ++ (below' ++ lower) ++ own' = C.locals ++ (below' ++ (lower ++ own')) by simp]
        exact next_of (goto_typed after around.after.inBody pos)
    · rw [around.arity, show C.locals ++ (below' ++ lower ++ between ++ (base ++ carried)) =
        C.locals ++ (below' ++ lower) ++ (between ++ base) ++ carried by simp]
      refine (onStack_holds (Stack.settle_holds _ _ _)).bind fun _ => ?_
      rw [show C.locals ++ (below' ++ lower) ++ carried = C.locals ++ (below' ++ (lower ++ carried)) by simp]
      split
      · obtain ⟨start, back, again⟩ := around.again ‹_›
        rw [back]
        exact next_of (goto_typed (outside.stands again) again.inBody pos)
      · rw [around.carries ‹_›]
        exact next_of (goto_typed after around.after.inBody pos)

/-- The next instruction finds the operands that it takes, and goes on well. -/
def Progresses (σ : Type) (C : Context) (act : Activation) (under : Array Value) (pos : Nat) (labels : List Label)
    (operands : List ValType) : Prop :=
  Ensures (Machine.Holds (σ := σ) C.shape under (C.locals ++ operands)) (step C.types { act with pos, labels })
    (Flow.Typed C act under) Trap.IsRegular

/-- So it does just when the instruction that is read at the position does. -/
theorem progresses_iff {i : Instr} {next : Nat} (read : Instr.read act.body pos = .ok i next) :
    Progresses σ C act under pos labels operands ↔
      Ensures (Machine.Holds (σ := σ) C.shape under (C.locals ++ operands))
        (exec C.types { act with pos := next, labels } pos i) (Flow.Typed C act under) Trap.IsRegular := by
  unfold Progresses
  rw [@step_read σ { act with pos, labels } i next read C.types]

section Constructs
variable {current : List ValType}

theorem around_out {L : Label} (kind : L.kind ≠ .loop) (results : L.results = own) (arity : L.arity = own.length)
    {next : Nat} (close : Instr.read act.body L.stop = .ok .endMark next)
    (after : act.Ready C labels types next (base ++ own) out) : act.Around C L labels types base own own out where
  results := results
  arity := arity
  carries := fun _ => rfl
  ends := ⟨next, close⟩
  after := Instr.read_endMark close ▸ after
  again := fun isLoop => absurd isLoop kind

theorem block_progresses (belongs : act.Belongs C under) (waits : act.Waits C labels types out below)
    (code : act.Carries pos (.block start stop type inner rest) last) (ends : act.EndsAt labels last)
    (valid : Valid C types (.block start stop type inner rest) (known current) out) :
    Progresses σ C act under pos labels (below ++ current) := by
  obtain ⟨t, base, signature, rfl, validInner, validRest⟩ := valid.block_known
  obtain ⟨rfl, inside, next, read, found, inner, close, rest⟩ := code.block
  refine (progresses_iff read).mpr (next_of ?_)
  unfold enterBlock
  rw [blockSignature_eq signature, pure_bind, ← List.append_assoc below, ← List.append_assoc]
  refine (heightBelow_holds _ _).bind fun height => .given fun high => ?_
  dsimp only
  rw [ofExcept_holds found, pure_bind]
  refine store_holds.bind fun s => .pure fun M holds => ?_
  rw [List.append_assoc] at holds
  have around := around_out (L := ⟨.block, start, stop, height, t.results.length, t.results, #[], s.effects⟩) (by simp) rfl rfl
    close ⟨_, last, rest, ends, validRest⟩
  have waits' := Waits.construct around (by rw [belongs.offset]; exact high) waits
  exact next_typed (waits'.stands ⟨_, stop, inner, .construct close, validInner⟩) M holds

theorem loop_progresses (belongs : act.Belongs C under) (waits : act.Waits C labels types out below)
    (code : act.Carries pos (.loop start stop type inner rest) last) (ends : act.EndsAt labels last)
    (valid : Valid C types (.loop start stop type inner rest) (known current) out) :
    Progresses σ C act under pos labels (below ++ current) := by
  obtain ⟨t, base, signature, rfl, validInner, validRest⟩ := valid.loop_known
  obtain ⟨rfl, inside, next, read, found, back, inner, close, rest⟩ := code.loop
  refine (progresses_iff read).mpr (next_of ?_)
  unfold enterLoop
  rw [blockSignature_eq signature, pure_bind, ← List.append_assoc below, ← List.append_assoc]
  refine (heightBelow_holds _ _).bind fun height => .given fun high => ?_
  dsimp only
  rw [ofExcept_holds found, pure_bind]
  refine store_holds.bind fun s => .pure fun M holds => ?_
  rw [List.append_assoc] at holds
  let snapshot := if s.options.loopGuard then s.stack.values.extract act.frame.offset s.stack.values.size else #[]
  let L : Label := ⟨.loop, start, stop, height, t.params.length, t.results, snapshot, s.effects⟩
  have around : act.Around C L labels types base t.params t.results out := {
    results := rfl
    arity := rfl
    carries := fun noLoop => absurd rfl noLoop
    ends := ⟨next, close⟩
    after := Instr.read_endMark close ▸ ⟨_, last, rest, ends, validRest⟩
    again := fun _ => ⟨start, back, _, last, code, ends, valid⟩ }
  have waits' := Waits.construct around (by rw [belongs.offset]; exact high) waits
  exact next_typed (waits'.stands ⟨_, stop, inner, .construct close, validInner⟩) M holds

theorem if_progresses {otherwise : Option Nat} (belongs : act.Belongs C under) (waits : act.Waits C labels types out below)
    (code : act.Carries pos (.ifThen start otherwise stop type first second rest) last) (ends : act.EndsAt labels last)
    (valid : Valid C types (.ifThen start otherwise stop type first second rest) (known current) out) :
    Progresses σ C act under pos labels (below ++ current) := by
  obtain ⟨t, base, signature, rfl, validFirst, validSecond, validRest⟩ := valid.ifThen_known
  obtain ⟨rfl, inside, next, read, found, arms, close, rest⟩ := code.ifThen
  refine (progresses_iff read).mpr (next_of ?_)
  unfold enterIf
  rw [blockSignature_eq signature, pure_bind, show C.locals ++ (below ++ (base ++ t.params ++ [.i32])) =
    C.locals ++ (below ++ base) ++ t.params ++ [.i32] by simp]
  refine (onStack_holds (Stack.popInt_holds .w32)).bind fun condition => ?_
  dsimp only
  rw [ofExcept_holds found, pure_bind]
  refine (heightBelow_holds _ _).bind fun height => .given fun high => store_holds.bind fun s => ?_
  rw [List.append_assoc]
  let L : Label := ⟨.ifThen, start, stop, height, t.results.length, t.results, #[], s.effects⟩
  have around : act.Around C L labels types base t.results t.results out :=
    around_out (by simp [L]) rfl rfl close ⟨_, last, rest, ends, validRest⟩
  have waits' := Waits.construct around (by rw [belongs.offset]; exact high) waits
  have opened : ∀ {pos arm last}, act.Carries pos arm last → act.EndsAt (L :: labels) last →
      Valid C (t.results :: types) arm (known t.params) t.results → act.Stands C pos (L :: labels) (below ++ base ++ t.params) :=
    fun carries ends valid => waits'.stands ⟨_, _, carries, ends, valid⟩
  have inBody : stop ≤ act.body.size := Nat.le_of_lt (EndsAt.inBody (.construct (L := L) close : act.EndsAt (L :: labels) stop))
  dsimp only
  rcases arms with ⟨rfl, rfl, carries⟩ | ⟨other, middle, rfl, apart, carries, mark, carries'⟩
  · split
    · exact .pure fun M holds => next_typed (opened carries (.construct close) validFirst) M holds
    · rw [Option.getD_none, if_pos rfl]
      have empty : act.Carries stop .done stop := code.narrow .done fun c hc => by cases hc
      exact goto_typed (opened empty (.construct close) validSecond) inBody inside
  · split
    · exact .pure fun M holds => next_typed (opened carries (.arm rfl mark close) validFirst) M holds
    · have behind := Instr.read_elseMark mark
      subst behind
      rw [Option.getD_some, if_neg apart]
      exact goto_typed (opened carries' (.construct close) validSecond) (Instr.read_bounds mark).2 inside

/-- At its end, the code has left just the results that the construct around it waits for. -/
theorem done_progresses (belongs : act.Belongs C under) (waits : act.Waits C labels types out below)
    (code : act.Carries pos .done last) (ends : act.EndsAt labels last) (valid : Valid C types .done (known current) out) :
    Progresses σ C act under pos labels (below ++ current) := by
  obtain rfl := valid.done_known
  obtain rfl := code.done
  cases ends with
  | body read =>
    refine (progresses_iff read).mpr (.pure fun M holds => ?_)
    cases waits with
    | body => exact ⟨[], by simpa using holds⟩
  | @construct L outer next read =>
    refine (progresses_iff read).mpr ?_
    cases waits with
    | @construct _ _ types base _ _ out below around height outside =>
      show Ensures _ (onStack (Stack.settle L.height L.results.length) >>= _) _ _
      rw [around.results, height, belongs.offset, ← List.append_assoc C.locals]
      have settle : Ensures (Stack.Holds under (C.locals ++ (below ++ base) ++ [] ++ current)) _ _ Trap.IsRegular :=
        Stack.settle_holds _ _ _
      rw [List.append_nil] at settle
      refine (onStack_holds settle).bind fun _ => .pure fun M holds => ?_
      rw [show C.locals ++ (below ++ base) ++ current = C.locals ++ (below ++ (base ++ current)) by simp] at holds
      obtain rfl := Instr.read_endMark read
      exact next_typed (outside.stands around.after) M holds
  | @arm L outer _ next next' kind read close =>
    refine (progresses_iff read).mpr (next_of ?_)
    unfold leaveArm
    dsimp only
    rw [if_pos kind]
    have empty : act.Carries L.stop .done L.stop := code.narrow .done fun c hc => by cases hc
    have ends : act.EndsAt (L :: outer) L.stop := .construct close
    exact goto_typed (waits.stands ⟨.done, L.stop, empty, ends, .done (suits_known _)⟩) (Nat.le_of_lt ends.inBody) next

theorem simple_progresses {i : Simple} (belongs : act.Belongs C under) (waits : act.Waits C labels types out below)
    (code : act.Carries pos (.simple i rest) last) (ends : act.EndsAt labels last)
    (valid : Valid C types (.simple i rest) (known current) out) :
    Progresses σ C act under pos labels (below ++ current) := by
  obtain ⟨next, read, carries⟩ := code.simple
  refine (progresses_iff read).mpr ?_
  have goes : ∀ {ts}, Valid C types rest (known ts) out → act.Stands C next labels (below ++ ts) :=
    fun valid => waits.stands ⟨rest, last, carries, ends, valid⟩
  cases i with
  | plain p =>
    -- The only instruction of any type is the one that traps.
    rcases valid.plain_known with rfl | ⟨params, results, base, typed, rfl, rest⟩
    · exact Ensures.bind (onStore_ensures (Q := fun _ _ => False) (.throw fun _ _ => trivial)) fun _ => .pure fun _ h => h.elim
    · rw [show C.locals ++ (below ++ (base ++ params)) = C.locals ++ (below ++ base) ++ params by simp]
      refine Ensures.bind (onStore_ensures (p.exec_holds typed belongs.offset belongs.locals)) fun _ =>
        .pure fun M holds => next_typed (goes rest) M ?_
      rw [show C.locals ++ (below ++ (base ++ results)) = C.locals ++ (below ++ base) ++ results by simp]
      exact holds
  | br depth =>
    obtain ⟨carried, base, found, rfl⟩ := valid.br_known
    exact branch_typed belongs waits found false fun h => by cases h
  | brIf depth =>
    obtain ⟨carried, base, found, rfl, rest⟩ := valid.brIf_known
    rw [show C.locals ++ (below ++ (base ++ carried ++ [.i32])) = C.locals ++ (below ++ (base ++ carried)) ++ [.i32] by simp]
    refine Ensures.bind (onStack_holds (Stack.popInt_holds .w32)) fun condition => ?_
    split
    · exact branch_typed belongs waits found true fun _ => goes rest
    · exact .pure fun M holds => next_typed (goes rest) M holds
  | brTable targets fallback =>
    obtain ⟨top, rfl, each⟩ := valid.brTable_known
    rw [show C.locals ++ (below ++ (top ++ [.i32])) = C.locals ++ (below ++ top) ++ [.i32] by simp]
    refine Ensures.bind (onStack_holds Stack.popAddress_holds) fun index => ?_
    -- All targets carry the same types, and whatever the index is, one of them is taken.
    have target : targets[index]?.getD fallback ∈ targets ∨ targets[index]?.getD fallback = fallback := by
      cases found : targets[index]? with
      | none => exact .inr rfl
      | some depth => exact .inl (Array.mem_of_getElem? found)
    obtain ⟨carried, base, found, rfl⟩ := each _ target
    exact branch_typed belongs waits found false fun h => by cases h
  | ret =>
    obtain ⟨base, rfl⟩ := valid.ret_known
    exact .pure fun M holds => ⟨below ++ base, by simpa using holds⟩
  | call callee =>
    obtain ⟨t, base, function, rfl, rest⟩ := valid.call_known
    refine .pure fun M holds => ⟨next, labels, below ++ base, t, rfl, function, ?_, by simpa using holds⟩
    rw [List.append_assoc]
    exact goes rest

end Constructs

/-- Where an activation stands, it finds the operands that its next instruction takes. -/
theorem Stands.progresses (stands : act.Stands C pos labels operands) (belongs : act.Belongs C under) :
    Progresses σ C act under pos labels operands := by
  obtain ⟨types, out, below, current, rfl, waits, code, last, carries, ends, valid⟩ := stands
  cases code with
  | done => exact done_progresses belongs waits carries ends valid
  | simple i rest => exact simple_progresses belongs waits carries ends valid
  | block start stop type inner rest => exact block_progresses belongs waits carries ends valid
  | loop start stop type inner rest => exact loop_progresses belongs waits carries ends valid
  | ifThen start otherwise stop type first second rest => exact if_progresses belongs waits carries ends valid

end Activation
end Wasm
