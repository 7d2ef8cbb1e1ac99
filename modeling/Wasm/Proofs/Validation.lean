import Mathlib.Algebra.Group.Nat.Defs
import Wasm.Proofs.Code
import Wasm.Module.Basic

/-! Validation: which functions are well typed. Each instruction takes operands of certain types off the stack and puts
    others on it. After an instruction that never runs on, there may be operands of any type. -/

namespace Wasm

/-! ### Signatures of instructions -/

def Numeric.params : Numeric → List ValType
  | eqz w | intUnary w _ | ofBits w => [w.int]
  | intBinary w _ | intCompare w _ => [w.int, w.int]
  | floatUnary w _ | toBits w => [w.float]
  | floatBinary w _ | floatCompare w _ => [w.float, w.float]
  | truncate _ source _ | truncateSat _ source _ => [source.float]
  | convert _ source _ => [source.int]
  | wrap => [.i64]
  | extend _ => [.i32]
  | demote => [.f64]
  | promote => [.f32]

def Numeric.result : Numeric → ValType
  | eqz _ | intCompare _ _ | floatCompare _ _ | wrap => .i32
  | intUnary w _ | intBinary w _ | toBits w => w.int
  | floatUnary w _ | floatBinary w _ | ofBits w => w.float
  | truncate target _ _ | truncateSat target _ _ => target.int
  | convert target _ _ => target.float
  | extend _ => .i64
  | demote => .f32
  | promote => .f64

/-- The type of the value that a load gives. -/
def LoadOp.type : LoadOp → ValType
  | full t => t
  | narrow w _ _ => w.int

def BlockType.signature? (types : Array FuncType) : BlockType → Option FuncType
  | empty => some ⟨[], []⟩
  | result t => some ⟨[], [t]⟩
  | signature index => types[index]?

/-- What is declared of a global. -/
structure GlobalType where
  type : ValType
  isConstant : Bool
deriving DecidableEq, Repr

def Global.declared (g : Global) : GlobalType := ⟨g.value.type, g.isConstant⟩

/-- What is declared of a store: its globals, and how many memories and data segments there are. -/
structure Shape where
  globals : Array GlobalType
  memories : Nat
  segments : Nat
deriving DecidableEq, Repr

def Store.shape (s : Store) : Shape := ⟨s.globals.map Global.declared, s.memories.size, s.data.size⟩

/-- What the code of a function may refer to. -/
structure Context where
  types : Array FuncType
  functions : Array FuncType
  shape : Shape
  locals : List ValType
  results : List ValType

/-- What an instruction that runs straight on takes and gives. -/
inductive Plain.Typed (C : Context) : Plain → (params results : List ValType) → Prop
  | nop : Typed C nop [] []
  | drop {t} : Typed C drop [t] []
  | select {t} : Typed C select [t, t, .i32] [t]
  | localGet {index t} : C.locals[index]? = some t → Typed C (localGet index) [] [t]
  | localSet {index t} : C.locals[index]? = some t → Typed C (localSet index) [t] []
  | localTee {index t} : C.locals[index]? = some t → Typed C (localTee index) [t] [t]
  | globalGet {index g} : C.shape.globals[index]? = some g → Typed C (globalGet index) [] [g.type]
  | globalSet {index g} : C.shape.globals[index]? = some g → g.isConstant = false →
      Typed C (globalSet index) [g.type] []
  | load {op arg} : 0 < C.shape.memories → 2 ^ arg.align ≤ op.size → Typed C (load op arg) [.i32] [op.type]
  | store {op arg} : 0 < C.shape.memories → 2 ^ arg.align ≤ op.size → Typed C (store op arg) [.i32, op.type] []
  | memorySize : 0 < C.shape.memories → Typed C memorySize [] [.i32]
  | memoryGrow : 0 < C.shape.memories → Typed C memoryGrow [.i32] [.i32]
  | const {v} : Typed C (const v) [] [v.type]
  | numeric {op} : Typed C (numeric op) op.params [op.result]
  | memoryInit {index} : 0 < C.shape.memories → index < C.shape.segments →
      Typed C (memoryInit index) [.i32, .i32, .i32] []
  | dataDrop {index} : index < C.shape.segments → Typed C (dataDrop index) [] []
  | memoryCopy : 0 < C.shape.memories → Typed C memoryCopy [.i32, .i32, .i32] []
  | memoryFill : 0 < C.shape.memories → Typed C memoryFill [.i32, .i32, .i32] []

/-! ### Operands -/

/-- The type of an operand. In code that is never reached it need not be known. -/
abbrev Operand : Type := Option ValType

def known (ts : List ValType) : List Operand := ts.map some

/-- The operands may be used where values of the types are expected. -/
inductive Suits : List Operand → List ValType → Prop
  | nil : Suits [] []
  | typed {t os ts} : Suits os ts → Suits (some t :: os) (t :: ts)
  | any {t os ts} : Suits os ts → Suits (none :: os) (t :: ts)

@[simp] theorem known_append (ts us : List ValType) : known (ts ++ us) = known ts ++ known us := List.map_append

theorem suits_known (ts : List ValType) : Suits (known ts) ts := by
  induction ts with
  | nil => exact .nil
  | cons t ts ih => exact .typed ih

theorem Suits.eq {os : List Operand} {ts us : List ValType} (h : Suits os us) (all : os = known ts) : ts = us := by
  induction h generalizing ts with
  | nil => simpa [known] using all
  | typed _ ih =>
    obtain ⟨t, ts, rfl, first, rest⟩ := List.map_eq_cons_iff.mp all.symm
    rw [Option.some.inj first, ih rest.symm]
  | any _ ih =>
    obtain ⟨t, ts, rfl, first, -⟩ := List.map_eq_cons_iff.mp all.symm
    cases first

/-- Where all types are known, suiting operands have just the types that are expected. -/
theorem Suits.known_eq {ts us : List ValType} {base os : List Operand} (suits : Suits os us) (h : known ts = base ++ os) :
    ∃ ts', ts = ts' ++ us ∧ base = known ts' := by
  obtain ⟨below, above, rfl, rfl, rfl⟩ := List.map_eq_append_iff.mp h
  exact ⟨below, by rw [suits.eq rfl], rfl⟩

/-! ### Code -/

/-- In the constructs whose branches take along values of the types in `labels`, innermost first, the code takes the
    operands to results of certain types. -/
inductive Valid (C : Context) : (labels : List (List ValType)) → Code → List Operand → List ValType → Prop
  | done {labels os out} : Suits os out → Valid C labels .done os out
  | plain {labels p params results base os rest out} : p.Typed C params results → Suits os params →
      Valid C labels rest (base ++ known results) out → Valid C labels (.simple (.plain p) rest) (base ++ os) out
  | selectUnknown {labels base condition rest out} : Suits condition [.i32] → Valid C labels rest (base ++ [none]) out →
      Valid C labels (.simple (.plain .select) rest) (base ++ ([none, none] ++ condition)) out
  | unreachable {labels os os' rest out} : Valid C labels rest os' out →
      Valid C labels (.simple (.plain .unreachable) rest) os out
  | br {labels depth ts base os os' rest out} : labels[depth]? = some ts → Suits os ts → Valid C labels rest os' out →
      Valid C labels (.simple (.br depth) rest) (base ++ os) out
  | brIf {labels depth ts base os condition rest out} : labels[depth]? = some ts → Suits os ts →
      Suits condition [.i32] → Valid C labels rest (base ++ known ts) out →
      Valid C labels (.simple (.brIf depth) rest) (base ++ os ++ condition) out
  | brTable {labels targets fallback base os index os' rest out} :
      (∀ depth, depth ∈ targets ∨ depth = fallback → ∃ ts, labels[depth]? = some ts ∧ Suits os ts) →
      Suits index [.i32] → Valid C labels rest os' out →
      Valid C labels (.simple (.brTable targets fallback) rest) (base ++ os ++ index) out
  | ret {labels base os os' rest out} : Suits os C.results → Valid C labels rest os' out →
      Valid C labels (.simple .ret rest) (base ++ os) out
  | call {labels callee t base os rest out} : C.functions[callee]? = some t → Suits os t.params →
      Valid C labels rest (base ++ known t.results) out → Valid C labels (.simple (.call callee) rest) (base ++ os) out
  | block {labels start stop type t base os inner rest out} : type.signature? C.types = some t → Suits os t.params →
      Valid C (t.results :: labels) inner (known t.params) t.results →
      Valid C labels rest (base ++ known t.results) out →
      Valid C labels (.block start stop type inner rest) (base ++ os) out
  | loop {labels start stop type t base os inner rest out} : type.signature? C.types = some t → Suits os t.params →
      Valid C (t.params :: labels) inner (known t.params) t.results →
      Valid C labels rest (base ++ known t.results) out →
      Valid C labels (.loop start stop type inner rest) (base ++ os) out
  | ifThen {labels start otherwise stop type t base os condition first second rest out} :
      type.signature? C.types = some t → Suits os t.params → Suits condition [.i32] →
      Valid C (t.results :: labels) first (known t.params) t.results →
      Valid C (t.results :: labels) second (known t.params) t.results →
      Valid C labels rest (base ++ known t.results) out →
      Valid C labels (.ifThen start otherwise stop type first second rest) (base ++ os ++ condition) out

/-! ### Code that is reached -/

namespace Valid
variable {C : Context} {labels : List (List ValType)} {rest inner first second : Code} {ts out : List ValType}
  {depth start stop : Nat} {type : BlockType}

theorem done_known (h : Valid C labels .done (known ts) out) : ts = out := by
  cases h with
  | done suits => exact suits.eq rfl

theorem plain_known {p : Plain} (h : Valid C labels (.simple (.plain p) rest) (known ts) out) :
    p = .unreachable ∨ ∃ params results base, p.Typed C params results ∧ ts = base ++ params ∧
      Valid C labels rest (known (base ++ results)) out := by
  generalize eq : known ts = os at h
  cases h with
  | plain typed suits rest =>
    obtain ⟨base, rfl, rfl⟩ := suits.known_eq eq
    exact .inr ⟨_, _, base, typed, rfl, by simpa using rest⟩
  | selectUnknown =>
    have unknown : none ∈ known ts := by simp [eq]
    simp [known] at unknown
  | unreachable => exact .inl rfl

theorem br_known (h : Valid C labels (.simple (.br depth) rest) (known ts) out) :
    ∃ carried base, labels[depth]? = some carried ∧ ts = base ++ carried := by
  generalize eq : known ts = os at h
  cases h with
  | br found suits =>
    obtain ⟨base, rfl, -⟩ := suits.known_eq eq
    exact ⟨_, base, found, rfl⟩

theorem brIf_known (h : Valid C labels (.simple (.brIf depth) rest) (known ts) out) :
    ∃ carried base, labels[depth]? = some carried ∧ ts = base ++ carried ++ [.i32] ∧
      Valid C labels rest (known (base ++ carried)) out := by
  generalize eq : known ts = os at h
  cases h with
  | brIf found suits condition rest =>
    obtain ⟨below, rfl, lower⟩ := condition.known_eq eq
    obtain ⟨base, rfl, rfl⟩ := suits.known_eq lower.symm
    exact ⟨_, base, found, rfl, by simpa using rest⟩

theorem brTable_known {targets : Array Nat} {fallback : Nat}
    (h : Valid C labels (.simple (.brTable targets fallback) rest) (known ts) out) : ∃ below, ts = below ++ [.i32] ∧
      ∀ depth, depth ∈ targets ∨ depth = fallback → ∃ carried base, labels[depth]? = some carried ∧
        below = base ++ carried := by
  generalize eq : known ts = os at h
  cases h with
  | brTable each index rest =>
    obtain ⟨below, rfl, lower⟩ := index.known_eq eq
    refine ⟨below, rfl, fun depth target => ?_⟩
    obtain ⟨carried, found, suits⟩ := each depth target
    obtain ⟨base, rfl, -⟩ := suits.known_eq lower.symm
    exact ⟨carried, base, found, rfl⟩

theorem ret_known (h : Valid C labels (.simple .ret rest) (known ts) out) : ∃ base, ts = base ++ C.results := by
  generalize eq : known ts = os at h
  cases h with
  | ret suits =>
    obtain ⟨base, rfl, -⟩ := suits.known_eq eq
    exact ⟨base, rfl⟩

theorem call_known {callee : Nat} (h : Valid C labels (.simple (.call callee) rest) (known ts) out) :
    ∃ t base, C.functions[callee]? = some t ∧ ts = base ++ t.params ∧ Valid C labels rest (known (base ++ t.results)) out := by
  generalize eq : known ts = os at h
  cases h with
  | call found suits rest =>
    obtain ⟨base, rfl, rfl⟩ := suits.known_eq eq
    exact ⟨_, base, found, rfl, by simpa using rest⟩

theorem block_known (h : Valid C labels (.block start stop type inner rest) (known ts) out) :
    ∃ t base, type.signature? C.types = some t ∧ ts = base ++ t.params ∧
      Valid C (t.results :: labels) inner (known t.params) t.results ∧ Valid C labels rest (known (base ++ t.results)) out := by
  generalize eq : known ts = os at h
  cases h with
  | block signature suits inner rest =>
    obtain ⟨base, rfl, rfl⟩ := suits.known_eq eq
    exact ⟨_, base, signature, rfl, inner, by simpa using rest⟩

theorem loop_known (h : Valid C labels (.loop start stop type inner rest) (known ts) out) :
    ∃ t base, type.signature? C.types = some t ∧ ts = base ++ t.params ∧
      Valid C (t.params :: labels) inner (known t.params) t.results ∧ Valid C labels rest (known (base ++ t.results)) out := by
  generalize eq : known ts = os at h
  cases h with
  | loop signature suits inner rest =>
    obtain ⟨base, rfl, rfl⟩ := suits.known_eq eq
    exact ⟨_, base, signature, rfl, inner, by simpa using rest⟩

theorem ifThen_known {otherwise : Option Nat}
    (h : Valid C labels (.ifThen start otherwise stop type first second rest) (known ts) out) :
    ∃ t base, type.signature? C.types = some t ∧ ts = base ++ t.params ++ [.i32] ∧
      Valid C (t.results :: labels) first (known t.params) t.results ∧
      Valid C (t.results :: labels) second (known t.params) t.results ∧
      Valid C labels rest (known (base ++ t.results)) out := by
  generalize eq : known ts = os at h
  cases h with
  | ifThen signature suits condition first second rest =>
    obtain ⟨below, rfl, lower⟩ := condition.known_eq eq
    obtain ⟨base, rfl, rfl⟩ := suits.known_eq lower.symm
    exact ⟨_, base, signature, rfl, first, second, by simpa using rest⟩

end Valid

/-! ### Modules -/

variable {σ : Type}

namespace Module

/-- What a function of a module may refer to, with a store of the given shape. -/
def context (m : Module σ) (shape : Shape) (f : Function σ) : Context where
  types := m.types
  functions := m.signatures
  shape := shape
  locals := f.signature.params ++ f.locals
  results := f.signature.results

/-- The code of every function takes nothing to the results of the function. -/
def Valid (m : Module σ) (shape : Shape) : Prop :=
  ∀ index f body, m.function index = .ok f → f.body = .code body →
    ∃ code, Whole body code ∧ Wasm.Valid (m.context shape f) [f.signature.results] code [] f.signature.results

end Module
end Wasm
