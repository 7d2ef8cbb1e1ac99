import Wasm.Proofs.Reading
import Wasm.Exec.JumpTable

/-! Structured code: the nesting that the bytes of a body stand for. `Laid` tells which bytes are laid out as which
    code, `Whole` that all of a body is, and `Unfinished` that a body stops before the end of the function. Instructions are
    those that are read; `Instr.Spelled` tells the bytes of each, and `whole_iff_spelled` those of all of a body. The
    positions in code are those of opcodes. They tell its constructs apart and mean nothing else to it. -/

namespace Wasm

/-- Instructions that neither open nor close a construct. -/
inductive Simple
  | plain (op : Plain)
  | br (depth : Nat)
  | brIf (depth : Nat)
  | brTable (targets : Array Nat) (fallback : Nat)
  | ret
  | call (function : Nat)
deriving DecidableEq, Repr

def Simple.instr : Simple → Instr
  | plain op => .plain op
  | br depth => .br depth
  | brIf depth => .brIf depth
  | brTable targets fallback => .brTable targets fallback
  | ret => .ret
  | call function => .call function

/-- An instruction is simple, opens a construct, or is a mark. -/
theorem Instr.shape (i : Instr) : (∃ s : Simple, i = s.instr) ∨ (∃ type, i = .block type) ∨ (∃ type, i = .loop type) ∨
    (∃ type, i = .ifThen type) ∨ i = .elseMark ∨ i = .endMark := by
  cases i with
  | block type => exact .inr (.inl ⟨type, rfl⟩)
  | loop type => exact .inr (.inr (.inl ⟨type, rfl⟩))
  | ifThen type => exact .inr (.inr (.inr (.inl ⟨type, rfl⟩)))
  | elseMark => exact .inr (.inr (.inr (.inr (.inl rfl))))
  | endMark => exact .inr (.inr (.inr (.inr (.inr rfl))))
  | plain op => exact .inl ⟨.plain op, rfl⟩
  | br depth => exact .inl ⟨.br depth, rfl⟩
  | brIf depth => exact .inl ⟨.brIf depth, rfl⟩
  | brTable targets fallback => exact .inl ⟨.brTable targets fallback, rfl⟩
  | ret => exact .inl ⟨.ret, rfl⟩
  | call function => exact .inl ⟨.call function, rfl⟩

/-- An instruction and what comes after it, as far as the end of the construct or function they are in. -/
inductive Code
  | done
  | simple (i : Simple) (rest : Code)
  | block (start stop : Nat) (type : BlockType) (inner rest : Code)
  | loop (start stop : Nat) (type : BlockType) (inner rest : Code)
  /-- Without an else, the second arm is empty. -/
  | ifThen (start : Nat) (otherwise : Option Nat) (stop : Nat) (type : BlockType) (first second rest : Code)
deriving DecidableEq, Repr

/-- A construct with the positions of its opcode, of its else and of its end. -/
structure Construct where
  kind : BlockKind
  start : Nat
  otherwise : Option Nat := none
  stop : Nat
deriving DecidableEq, Repr

namespace Code

/-- All constructs of some code, in the order of their ends. -/
def constructs : Code → List Construct
  | done => []
  | simple _ rest => rest.constructs
  | block start stop _ inner rest => inner.constructs ++ { kind := .block, start, stop } :: rest.constructs
  | loop start stop _ inner rest => inner.constructs ++ { kind := .loop, start, stop } :: rest.constructs
  | ifThen start otherwise stop _ first second rest =>
    first.constructs ++ second.constructs ++ { kind := .ifThen, start, otherwise, stop } :: rest.constructs

end Code

/-- The bytes from the first position to the second one are laid out as the code. -/
inductive Laid (body : ByteArray) : Nat → Code → Nat → Prop
  | done {pos} : Laid body pos .done pos
  | simple {pos i next rest last} : Instr.read body pos = .ok i.instr next → Laid body next rest last →
      Laid body pos (.simple i rest) last
  | block {pos type inside inner stop next rest last} : Instr.read body pos = .ok (.block type) inside →
      Laid body inside inner stop → Instr.read body stop = .ok .endMark next → Laid body next rest last →
      Laid body pos (.block pos stop type inner rest) last
  | loop {pos type inside inner stop next rest last} : Instr.read body pos = .ok (.loop type) inside →
      Laid body inside inner stop → Instr.read body stop = .ok .endMark next → Laid body next rest last →
      Laid body pos (.loop pos stop type inner rest) last
  | ifThen {pos type inside first stop next rest last} : Instr.read body pos = .ok (.ifThen type) inside →
      Laid body inside first stop → Instr.read body stop = .ok .endMark next → Laid body next rest last →
      Laid body pos (.ifThen pos none stop type first .done rest) last
  | ifElse {pos type inside first other middle second stop next rest last} :
      Instr.read body pos = .ok (.ifThen type) inside → Laid body inside first other →
      Instr.read body other = .ok .elseMark middle → Laid body middle second stop →
      Instr.read body stop = .ok .endMark next → Laid body next rest last →
      Laid body pos (.ifThen pos (some other) stop type first second rest) last

/-- A body is code and then, as its very last byte, the end of the function. -/
def Whole (body : ByteArray) (code : Code) : Prop :=
  ∃ stop, Laid body 0 code stop ∧ Instr.read body stop = .ok .endMark body.size

/-- From a position to the end of the body there are instructions only, with every else and end in its place. -/
inductive Unfinished (body : ByteArray) : Nat → Prop
  | code {pos code} : Laid body pos code body.size → Unfinished body pos
  | block {pos code start type inside} : Laid body pos code start → Instr.read body start = .ok (.block type) inside →
      Unfinished body inside → Unfinished body pos
  | loop {pos code start type inside} : Laid body pos code start → Instr.read body start = .ok (.loop type) inside →
      Unfinished body inside → Unfinished body pos
  | ifThen {pos code start type inside} : Laid body pos code start → Instr.read body start = .ok (.ifThen type) inside →
      Unfinished body inside → Unfinished body pos
  | ifElse {pos code start type inside first other middle} : Laid body pos code start →
      Instr.read body start = .ok (.ifThen type) inside → Laid body inside first other →
      Instr.read body other = .ok .elseMark middle → Unfinished body middle → Unfinished body pos

/-! ### Where code lies -/

namespace Construct

/-- All of the constructs lie between two positions. -/
def Within (first last : Nat) (cs : List Construct) : Prop :=
  ∀ c ∈ cs, first ≤ c.start ∧ c.start < c.stop ∧ c.stop < last

/-- The constructs share no opcode. -/
def Apart (c d : Construct) : Prop := c.start ≠ d.start ∧ c.stop ≠ d.stop

variable {first next last : Nat} {inner rest : List Construct}

theorem Within.widen {first' last' : Nat} (h : Within first last rest) (h₁ : first' ≤ first) (h₂ : last ≤ last') :
    Within first' last' rest := by
  intro c hc
  have := h c hc
  omega

theorem Within.append {stop : Nat} (hi : Within first stop inner) (hr : Within next last rest) (h₁ : first ≤ next)
    (h₂ : stop ≤ last) : Within first last (inner ++ rest) := by
  intro c hc
  rcases List.mem_append.mp hc with hc | hc
  · exact hi.widen (Nat.le_refl _) h₂ c hc
  · exact hr.widen h₁ (Nat.le_refl _) c hc

/-- A construct goes around what is in it, and the rest comes after it. -/
theorem Within.around {c : Construct} (hi : Within first c.stop inner) (hr : Within next last rest)
    (opens : c.start < first) (inside : first ≤ c.stop) (closes : c.stop < next) (after : next ≤ last) :
    Within c.start last (inner ++ c :: rest) := by
  intro d hd
  rcases List.mem_append.mp hd with hd | hd
  · have := hi d hd
    omega
  · rcases List.mem_cons.mp hd with rfl | hd
    · omega
    · have := hr d hd
      omega

theorem pairwise_append {stop : Nat} (hi : inner.Pairwise Apart) (hr : rest.Pairwise Apart)
    (before : Within first stop inner) (after : Within next last rest) (h : stop ≤ next) :
    (inner ++ rest).Pairwise Apart := by
  refine List.pairwise_append.mpr ⟨hi, hr, fun c hc d hd => ?_⟩
  have left := before c hc
  have right := after d hd
  exact ⟨by omega, by omega⟩

theorem pairwise_around {c : Construct} (hi : inner.Pairwise Apart) (hr : rest.Pairwise Apart)
    (within : Within first c.stop inner) (after : Within next last rest) (opens : c.start < first)
    (inside : first ≤ c.stop) (closes : c.stop < next) : (inner ++ c :: rest).Pairwise Apart := by
  refine List.pairwise_append.mpr ⟨hi, List.pairwise_cons.mpr ⟨fun d hd => ?_, hr⟩, fun d hd e he => ?_⟩
  · have := after d hd
    exact ⟨by omega, by omega⟩
  · have left := within d hd
    rcases List.mem_cons.mp he with rfl | he
    · exact ⟨by omega, by omega⟩
    · have right := after e he
      exact ⟨by omega, by omega⟩

end Construct

namespace Laid
variable {body : ByteArray} {pos last : Nat} {code : Code}

theorem le (h : Laid body pos code last) : pos ≤ last := by
  induction h with
  | done => exact Nat.le_refl _
  | simple read _ ih => have := Instr.read_bounds read; omega
  | block open_ _ close _ ih₁ ih₂ => have := Instr.read_bounds open_; have := Instr.read_bounds close; omega
  | loop open_ _ close _ ih₁ ih₂ => have := Instr.read_bounds open_; have := Instr.read_bounds close; omega
  | ifThen open_ _ close _ ih₁ ih₂ => have := Instr.read_bounds open_; have := Instr.read_bounds close; omega
  | ifElse open_ _ other _ close _ ih₁ ih₂ ih₃ =>
    have := Instr.read_bounds open_
    have := Instr.read_bounds other
    have := Instr.read_bounds close
    omega

/-- A construct lies within the code it belongs to. -/
theorem construct_bounds (h : Laid body pos code last) : Construct.Within pos last code.constructs := by
  induction h with
  | done => intro c hc; cases hc
  | simple read rest ih =>
    have := Instr.read_bounds read
    exact ih.widen (by omega) (Nat.le_refl _)
  | block open_ inner close rest ih₁ ih₂ =>
    exact ih₁.around ih₂ (Instr.read_bounds open_).1 inner.le (Instr.read_bounds close).1 rest.le
  | loop open_ inner close rest ih₁ ih₂ =>
    exact ih₁.around ih₂ (Instr.read_bounds open_).1 inner.le (Instr.read_bounds close).1 rest.le
  | ifThen open_ first close rest ih₁ ih₂ =>
    rw [Code.constructs, Code.constructs, List.append_nil]
    exact ih₁.around ih₂ (Instr.read_bounds open_).1 first.le (Instr.read_bounds close).1 rest.le
  | @ifElse _ _ inside _ other middle _ stop _ _ _ open_ first mark second close rest ih₁ ih₂ ih₃ =>
    have before := first.le
    have between := (Instr.read_bounds mark).1
    have after := second.le
    have arms := ih₁.append ih₂ (show inside ≤ middle by omega) (show other ≤ stop by omega)
    exact arms.around ih₃ (Instr.read_bounds open_).1 (show inside ≤ stop by omega) (Instr.read_bounds close).1 rest.le

theorem constructs_pairwise (h : Laid body pos code last) : code.constructs.Pairwise Construct.Apart := by
  induction h with
  | done => exact .nil
  | simple _ _ ih => exact ih
  | block open_ inner close rest ih₁ ih₂ =>
    exact Construct.pairwise_around ih₁ ih₂ inner.construct_bounds rest.construct_bounds
      (Instr.read_bounds open_).1 inner.le (Instr.read_bounds close).1
  | loop open_ inner close rest ih₁ ih₂ =>
    exact Construct.pairwise_around ih₁ ih₂ inner.construct_bounds rest.construct_bounds
      (Instr.read_bounds open_).1 inner.le (Instr.read_bounds close).1
  | ifThen open_ first close rest ih₁ ih₂ =>
    rw [Code.constructs, Code.constructs, List.append_nil]
    exact Construct.pairwise_around ih₁ ih₂ first.construct_bounds rest.construct_bounds
      (Instr.read_bounds open_).1 first.le (Instr.read_bounds close).1
  | @ifElse _ _ inside _ other middle _ stop _ _ _ open_ first mark second close rest ih₁ ih₂ ih₃ =>
    have before := first.le
    have between := (Instr.read_bounds mark).1
    have after := second.le
    have arms := Construct.pairwise_append ih₁ ih₂ first.construct_bounds second.construct_bounds (Nat.le_of_lt between)
    have within := first.construct_bounds.append second.construct_bounds (show inside ≤ middle by omega)
      (show other ≤ stop by omega)
    exact Construct.pairwise_around arms ih₃ within rest.construct_bounds (Instr.read_bounds open_).1
      (show inside ≤ stop by omega) (Instr.read_bounds close).1

end Laid
end Wasm
