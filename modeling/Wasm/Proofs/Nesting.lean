import Mathlib.Data.List.Pairwise
import Mathlib.Data.List.Sort
import Mathlib.Logic.Relation
import Wasm.Proofs.Code

/-! Which constructs are open at a position: those that have been opened before it and end there or later. Constructs
    lie in each other or apart, so that the open ones are found from the position alone, however a run has come there. -/

namespace Wasm

/-- The construct that an instruction opens. -/
def Instr.opens? : Instr → Option BlockKind
  | block _ => some .block
  | loop _ => some .loop
  | ifThen _ => some .ifThen
  | _ => none

/-- One instruction leads from a position to another one. -/
def Reads (body : ByteArray) (pos next : Nat) : Prop := ∃ i, Instr.read body pos = .ok i next

/-- Instructions lead from a position to another one. -/
abbrev ReadsTo (body : ByteArray) : Nat → Nat → Prop := Relation.ReflTransGen (Reads body)

namespace ReadsTo
variable {body : ByteArray} {first pos next other : Nat} {i : Instr}

theorem le (h : ReadsTo body first pos) : first ≤ pos := by
  induction h with
  | refl => exact Nat.le_refl _
  | tail _ read ih =>
    obtain ⟨i, read⟩ := read
    have := Instr.read_bounds read
    omega

theorem onward (h : ReadsTo body first pos) (read : Instr.read body pos = .ok i next) : ReadsTo body first next :=
  .tail h ⟨i, read⟩

theorem behind (h : ReadsTo body first pos) (read : Instr.read body first = .ok i next) :
    pos = first ∨ ReadsTo body next pos := by
  rcases h.cases_head with rfl | ⟨mid, ⟨j, read'⟩, rest⟩
  · exact .inl rfl
  · rw [read] at read'
    cases read'
    exact .inr rest

/-- Of two positions that are read, the lower one leads to the other one. -/
theorem between (h : ReadsTo body first pos) (h' : ReadsTo body first other) (le : pos ≤ other) :
    ReadsTo body pos other := by
  have unique : Relator.RightUnique (Reads body) := by
    rintro a b c ⟨i, read⟩ ⟨j, read'⟩
    rw [read] at read'
    cases read'
    rfl
  rcases Relation.ReflTransGen.total_of_right_unique unique h h' with forth | back
  · exact forth
  · rw [Nat.le_antisymm le (ReadsTo.le back)]

/-- No position inside of an instruction is read. -/
theorem skips (h : ReadsTo body first pos) (read : Instr.read body pos = .ok i next) (h' : ReadsTo body first other) :
    other ≤ pos ∨ next ≤ other := by
  by_cases le : other ≤ pos
  · exact .inl le
  · rcases (h.between h' (by omega)).behind read with rfl | rest
    · exact .inl (Nat.le_refl _)
    · exact .inr rest.le

end ReadsTo

namespace Construct

/-- A construct lies in one arm of another one. -/
def InsideOf (c d : Construct) : Prop :=
  d.start < c.start ∧ c.stop < d.stop ∧ ∀ other ∈ d.otherwise, c.stop < other ∨ other < c.start

/-- Of two constructs, the one that ends first lies before the other one or in it. -/
def Before (c d : Construct) : Prop := c.stop < d.start ∨ c.InsideOf d

theorem before_append {first stop next last : Nat} {inner rest : List Construct} (hi : inner.Pairwise Before)
    (hr : rest.Pairwise Before) (before : Within first stop inner) (after : Within next last rest) (h : stop ≤ next) :
    (inner ++ rest).Pairwise Before := by
  refine List.pairwise_append.mpr ⟨hi, hr, fun c hc d hd => .inl ?_⟩
  have left := before c hc
  have right := after d hd
  omega

theorem before_around {next last : Nat} {inner rest : List Construct} {c : Construct} (hi : inner.Pairwise Before)
    (hr : rest.Pairwise Before) (inside : ∀ d ∈ inner, d.InsideOf c) (after : Within next last rest)
    (closes : c.stop < next) : (inner ++ c :: rest).Pairwise Before := by
  refine List.pairwise_append.mpr ⟨hi, List.pairwise_cons.mpr ⟨fun d hd => .inl ?_, hr⟩, fun d hd e he => ?_⟩
  · have := after d hd
    omega
  · rcases List.mem_cons.mp he with rfl | he
    · exact .inr (inside d hd)
    · have within := (inside d hd).2.1
      have right := after e he
      exact .inl (by omega)

/-- The positions of a construct are read, and its opcode, its else and its end are found there. -/
structure Seen (body : ByteArray) (first : Nat) (c : Construct) : Prop where
  start : ReadsTo body first c.start
  stop : ReadsTo body first c.stop
  opens : ∃ i next, Instr.read body c.start = .ok i next ∧ i.opens? = some c.kind
  closes : ∃ next, Instr.read body c.stop = .ok .endMark next
  otherwise : ∀ other ∈ c.otherwise, c.kind = .ifThen ∧ c.start < other ∧ other < c.stop ∧
    ReadsTo body first other ∧ ∃ next, Instr.read body other = .ok .elseMark next

theorem Seen.after {body : ByteArray} {first pos : Nat} {c : Construct} (h : c.Seen body pos)
    (leads : ReadsTo body first pos) : c.Seen body first := by
  refine ⟨leads.trans h.start, leads.trans h.stop, h.opens, h.closes, fun other own => ?_⟩
  obtain ⟨kind, after, before, reached, mark⟩ := h.otherwise other own
  exact ⟨kind, after, before, leads.trans reached, mark⟩

theorem seen_around {body : ByteArray} {inside next : Nat} {inner rest : List Construct} {c : Construct}
    (own : c.Seen body c.start) (hi : ∀ d ∈ inner, d.Seen body inside) (toInside : ReadsTo body c.start inside)
    (hr : ∀ d ∈ rest, d.Seen body next) (toNext : ReadsTo body c.start next) :
    ∀ d ∈ inner ++ c :: rest, d.Seen body c.start := by
  intro d hd
  rcases List.mem_append.mp hd with hd | hd
  · exact (hi d hd).after toInside
  · rcases List.mem_cons.mp hd with rfl | hd
    · exact own
    · exact (hr d hd).after toNext

/-- Constructs that account for an instruction that is read at a position: for an opening, an else or an end. -/
structure Accounts (cs : List Construct) (pos : Nat) (i : Instr) : Prop where
  opens : ∀ kind, i.opens? = some kind → ∃ c ∈ cs, c.kind = kind ∧ c.start = pos
  otherwise : i = .elseMark → ∃ c ∈ cs, c.otherwise = some pos
  closes : i = .endMark → ∃ c ∈ cs, c.stop = pos

theorem Accounts.mono {cs ds : List Construct} {pos : Nat} {i : Instr} (h : Accounts cs pos i) (within : cs ⊆ ds) :
    Accounts ds pos i := by
  refine ⟨fun kind opens => ?_, fun mark => ?_, fun mark => ?_⟩
  · obtain ⟨c, hc, own⟩ := h.opens kind opens
    exact ⟨c, within hc, own⟩
  · obtain ⟨c, hc, own⟩ := h.otherwise mark
    exact ⟨c, within hc, own⟩
  · obtain ⟨c, hc, own⟩ := h.closes mark
    exact ⟨c, within hc, own⟩

theorem Accounts.simple (s : Simple) (cs : List Construct) (pos : Nat) : Accounts cs pos s.instr := by
  constructor <;> cases s <;> intros <;> contradiction

theorem Accounts.opening {cs : List Construct} {i : Instr} {c : Construct} (hc : c ∈ cs)
    (opens : i.opens? = some c.kind) : Accounts cs c.start i := by
  refine ⟨fun kind own => ⟨c, hc, ?_, rfl⟩, ?_, ?_⟩
  · rw [opens] at own
    exact Option.some.inj own
  · rintro rfl
    cases opens
  · rintro rfl
    cases opens

theorem Accounts.elseMark {cs : List Construct} {pos : Nat} {c : Construct} (hc : c ∈ cs) (other : c.otherwise = some pos) :
    Accounts cs pos .elseMark := ⟨nofun, fun _ => ⟨c, hc, other⟩, nofun⟩

theorem Accounts.endMark {cs : List Construct} {c : Construct} (hc : c ∈ cs) : Accounts cs c.stop .endMark :=
  ⟨nofun, nofun, fun _ => ⟨c, hc, rfl⟩⟩

/-- A construct accounts for its opcode and its end, and the rest for what comes behind. -/
theorem Accounts.around {body : ByteArray} {inside next pos after : Nat} {inner rest : List Construct} {c : Construct}
    {i opening : Instr} (read : Instr.read body c.start = .ok opening inside) (opens : opening.opens? = some c.kind)
    (toStop : ReadsTo body inside c.stop) (close : Instr.read body c.stop = .ok .endMark next)
    (hi : ReadsTo body inside pos → pos < c.stop → Accounts (inner ++ c :: rest) pos i)
    (hr : ReadsTo body next pos → Accounts rest pos i) (reached : ReadsTo body c.start pos)
    (found : Instr.read body pos = .ok i after) : Accounts (inner ++ c :: rest) pos i := by
  have own : c ∈ inner ++ c :: rest := List.mem_append_right _ List.mem_cons_self
  rcases reached.behind read with rfl | reached
  · rw [read] at found
    cases found
    exact .opening own opens
  by_cases before : pos < c.stop
  · exact hi reached before
  rcases (toStop.between reached (Nat.le_of_not_lt before)).behind close with rfl | reached
  · rw [close] at found
    cases found
    exact .endMark own
  · exact (hr reached).mono fun d hd => List.mem_append_right _ (List.mem_cons_of_mem _ hd)

end Construct

/-! ### The constructs of code -/

namespace Laid
variable {body : ByteArray} {pos last : Nat} {code : Code}

open Construct

theorem readsTo (h : Laid body pos code last) : ReadsTo body pos last := by
  induction h with
  | done => exact .refl
  | simple read _ ih => exact .head ⟨_, read⟩ ih
  | block read _ close _ ih₁ ih₂ => exact .head ⟨_, read⟩ (ih₁.trans (.head ⟨_, close⟩ ih₂))
  | loop read _ close _ ih₁ ih₂ => exact .head ⟨_, read⟩ (ih₁.trans (.head ⟨_, close⟩ ih₂))
  | ifThen read _ close _ ih₁ ih₂ => exact .head ⟨_, read⟩ (ih₁.trans (.head ⟨_, close⟩ ih₂))
  | ifElse read _ mark _ close _ ih₁ ih₂ ih₃ =>
    exact .head ⟨_, read⟩ (ih₁.trans (.head ⟨_, mark⟩ (ih₂.trans (.head ⟨_, close⟩ ih₃))))

theorem constructs_before (h : Laid body pos code last) : code.constructs.Pairwise Before := by
  induction h with
  | done => exact .nil
  | simple _ _ ih => exact ih
  | block read inner close rest ih₁ ih₂ =>
    refine before_around ih₁ ih₂ (fun d hd => ?_) rest.construct_bounds (Instr.read_bounds close).1
    have := inner.construct_bounds d hd
    exact ⟨by have := Instr.read_bounds read; dsimp only; omega, this.2.2, by rintro _ ⟨⟩⟩
  | loop read inner close rest ih₁ ih₂ =>
    refine before_around ih₁ ih₂ (fun d hd => ?_) rest.construct_bounds (Instr.read_bounds close).1
    have := inner.construct_bounds d hd
    exact ⟨by have := Instr.read_bounds read; dsimp only; omega, this.2.2, by rintro _ ⟨⟩⟩
  | ifThen read first close rest ih₁ ih₂ =>
    rw [Code.constructs, Code.constructs, List.append_nil]
    refine before_around ih₁ ih₂ (fun d hd => ?_) rest.construct_bounds (Instr.read_bounds close).1
    have := first.construct_bounds d hd
    exact ⟨by have := Instr.read_bounds read; dsimp only; omega, this.2.2, by rintro _ ⟨⟩⟩
  | @ifElse _ _ inside _ other middle _ stop _ _ _ read first mark second close rest ih₁ ih₂ ih₃ =>
    have opens := (Instr.read_bounds read).1
    have between := (Instr.read_bounds mark).1
    have before := first.le
    have after := second.le
    -- The constructs of the first arm end before the else, those of the second begin behind it.
    have arms := before_append ih₁ ih₂ first.construct_bounds second.construct_bounds (Nat.le_of_lt between)
    refine before_around arms ih₃ (fun d hd => ?_) rest.construct_bounds (Instr.read_bounds close).1
    rcases List.mem_append.mp hd with hd | hd
    · have := first.construct_bounds d hd
      refine ⟨by dsimp only; omega, by dsimp only; omega, ?_⟩
      rintro _ ⟨⟩
      exact .inl this.2.2
    · have := second.construct_bounds d hd
      refine ⟨by dsimp only; omega, this.2.2, ?_⟩
      rintro _ ⟨⟩
      exact .inr (by omega)

theorem constructs_seen (h : Laid body pos code last) : ∀ c ∈ code.constructs, c.Seen body pos := by
  induction h with
  | done => nofun
  | simple read _ ih => exact fun c hc => (ih c hc).after (.single ⟨_, read⟩)
  | block read inner close rest ih₁ ih₂ =>
    have inside : ReadsTo body _ _ := .single ⟨_, read⟩
    have toStop : ReadsTo body _ _ := inside.trans inner.readsTo
    exact seen_around ⟨.refl, toStop, ⟨_, _, read, rfl⟩, ⟨_, close⟩, by rintro _ ⟨⟩⟩ ih₁ inside ih₂
      (toStop.onward close)
  | loop read inner close rest ih₁ ih₂ =>
    have inside : ReadsTo body _ _ := .single ⟨_, read⟩
    have toStop : ReadsTo body _ _ := inside.trans inner.readsTo
    exact seen_around ⟨.refl, toStop, ⟨_, _, read, rfl⟩, ⟨_, close⟩, by rintro _ ⟨⟩⟩ ih₁ inside ih₂
      (toStop.onward close)
  | ifThen read first close rest ih₁ ih₂ =>
    have inside : ReadsTo body _ _ := .single ⟨_, read⟩
    have toStop : ReadsTo body _ _ := inside.trans first.readsTo
    rw [Code.constructs, Code.constructs, List.append_nil]
    exact seen_around ⟨.refl, toStop, ⟨_, _, read, rfl⟩, ⟨_, close⟩, by rintro _ ⟨⟩⟩ ih₁ inside ih₂
      (toStop.onward close)
  | @ifElse _ _ inside _ other middle _ stop _ _ _ read first mark second close rest ih₁ ih₂ ih₃ =>
    have enters : ReadsTo body _ _ := .single ⟨_, read⟩
    have toMiddle : ReadsTo body inside middle := first.readsTo.onward mark
    have toStop : ReadsTo body _ _ := enters.trans (toMiddle.trans second.readsTo)
    have opens := (Instr.read_bounds read).1
    have before := first.le
    have between := (Instr.read_bounds mark).1
    have after := second.le
    refine seen_around ⟨.refl, toStop, ⟨_, _, read, rfl⟩, ⟨_, close⟩, ?_⟩ (fun d hd => ?_) enters ih₃ (toStop.onward close)
    · rintro _ ⟨⟩
      exact ⟨rfl, by dsimp only; omega, by dsimp only; omega, enters.trans first.readsTo, _, mark⟩
    · rcases List.mem_append.mp hd with hd | hd
      · exact ih₁ d hd
      · exact (ih₂ d hd).after toMiddle

/-- The constructs of code account for all that is read in it. -/
theorem constructs_account (h : Laid body pos code last) {at_ next : Nat} {i : Instr} (reached : ReadsTo body pos at_)
    (before : at_ < last) (found : Instr.read body at_ = .ok i next) : Accounts code.constructs at_ i := by
  induction h with
  | done =>
    have := reached.le
    omega
  | @simple _ s _ _ _ read _ ih =>
    rcases reached.behind read with rfl | reached
    · rw [read] at found
      cases found
      exact .simple s _ _
    · exact ih reached before
  | block read inner close rest ih₁ ih₂ =>
    exact .around read rfl inner.readsTo close (fun reached inside => (ih₁ reached inside).mono (List.subset_append_left _ _))
      (fun reached => ih₂ reached before) reached found
  | loop read inner close rest ih₁ ih₂ =>
    exact .around read rfl inner.readsTo close (fun reached inside => (ih₁ reached inside).mono (List.subset_append_left _ _))
      (fun reached => ih₂ reached before) reached found
  | ifThen read first close rest ih₁ ih₂ =>
    rw [Code.constructs, Code.constructs, List.append_nil]
    exact .around read rfl first.readsTo close (fun reached inside => (ih₁ reached inside).mono (List.subset_append_left _ _))
      (fun reached => ih₂ reached before) reached found
  | @ifElse _ _ _ _ other _ _ _ _ _ _ read first mark second close rest ih₁ ih₂ ih₃ =>
    refine .around read rfl ((first.readsTo.onward mark).trans second.readsTo) close (fun reached inside => ?_)
      (fun reached => ih₃ reached before) reached found
    by_cases inFirst : at_ < other
    · exact (ih₁ reached inFirst).mono fun c hc => List.mem_append_left _ (List.mem_append_left _ hc)
    rcases (first.readsTo.between reached (Nat.le_of_not_lt inFirst)).behind mark with rfl | reached
    · rw [mark] at found
      cases found
      exact .elseMark (List.mem_append_right _ List.mem_cons_self) rfl
    · exact (ih₂ reached inside).mono fun c hc => List.mem_append_left _ (List.mem_append_right _ hc)

end Laid

/-! ### Open constructs -/

namespace Construct
variable {cs : List Construct} {c : Construct} {pos : Nat}

/-- A construct is open behind its opcode, and up to its end. -/
def IsOpenAt (c : Construct) (pos : Nat) : Prop := c.start < pos ∧ pos ≤ c.stop

instance (c : Construct) (pos : Nat) : Decidable (c.IsOpenAt pos) := inferInstanceAs (Decidable (_ ∧ _))

/-- The constructs that are open at a position, in the order of their ends: innermost first. -/
def openAt (cs : List Construct) (pos : Nat) : List Construct := cs.filter fun c => c.IsOpenAt pos

theorem mem_openAt {d : Construct} : d ∈ openAt cs pos ↔ d ∈ cs ∧ d.IsOpenAt pos := by
  simp [openAt]

@[simp] theorem openAt_zero (cs : List Construct) : openAt cs 0 = [] := by
  refine List.filter_eq_nil_iff.mpr fun c _ => ?_
  rw [decide_eq_true_eq]
  exact fun isOpen => Nat.not_lt_zero _ isOpen.1

/-- Constructs in the order of their ends, any two of them apart or one in the other. -/
structure Nested (cs : List Construct) : Prop where
  proper : ∀ c ∈ cs, c.start < c.stop
  before : cs.Pairwise Before

namespace Nested

theorem ordered (h : Nested cs) : cs.Pairwise fun c d => c.stop < d.stop := by
  refine h.before.imp_of_mem fun {c d} _ hd before => ?_
  have proper := h.proper d hd
  rcases before with before | inside
  · omega
  · exact inside.2.1

theorem apart (h : Nested cs) {d : Construct} (hc : c ∈ cs) (hd : d ∈ cs) : c = d ∨ c.Before d ∨ d.Before c := by
  have : Std.Symm fun c d : Construct => c = d ∨ c.Before d ∨ d.Before c := ⟨fun c d either => by
    rcases either with rfl | before | after
    · exact .inl rfl
    · exact .inr (.inr before)
    · exact .inr (.inl after)⟩
  exact List.Pairwise.forall_of_forall (R := fun c d => c = d ∨ c.Before d ∨ d.Before c) (fun _ _ => .inl rfl)
    (h.before.imp fun before => .inr (.inl before)) hc hd

/-- The open constructs are known by what they are, as their order is that of their ends. -/
theorem openAt_eq (h : Nested cs) {l : List Construct} (sorted : l.Pairwise fun c d => c.stop < d.stop)
    (mem : ∀ d, d ∈ l ↔ d ∈ cs ∧ d.IsOpenAt pos) : openAt cs pos = l := by
  have : Std.Irrefl fun c d : Construct => c.stop < d.stop := ⟨fun c => Nat.lt_irrefl c.stop⟩
  have : Std.Antisymm fun c d : Construct => c.stop < d.stop := ⟨fun c d h h' => absurd (Nat.lt_trans h h') (Nat.lt_irrefl _)⟩
  exact List.Pairwise.eq_of_mem_iff (h.ordered.filter _) sorted fun d => mem_openAt.trans (mem d).symm

/-- Where nothing inside of a construct is open, it is the innermost one. -/
theorem openAt_innermost (h : Nested cs) (hc : c ∈ cs) (own : c.IsOpenAt pos)
    (alone : ∀ d ∈ cs, d.InsideOf c → ¬d.IsOpenAt pos) : openAt cs pos = c :: openAt cs c.start := by
  have proper := h.proper c hc
  have around : ∀ d ∈ cs, d.IsOpenAt c.start → c.InsideOf d := by
    intro d hd isOpen
    have := h.proper d hd
    unfold IsOpenAt at isOpen
    rcases h.apart hc hd with rfl | (before | inside) | before | inside
    · omega
    · omega
    · exact inside
    · omega
    · have := inside.1
      omega
  refine h.openAt_eq (List.pairwise_cons.mpr ⟨fun d hd => ?_, h.ordered.filter _⟩) fun d => ?_
  · obtain ⟨hd, isOpen⟩ := mem_openAt.mp hd
    exact (around d hd isOpen).2.1
  · rw [List.mem_cons, mem_openAt]
    constructor
    · rintro (rfl | ⟨hd, isOpen⟩)
      · exact ⟨hc, own⟩
      · have inside := around d hd isOpen
        exact ⟨hd, Nat.lt_trans inside.1 own.1, Nat.le_trans own.2 (Nat.le_of_lt inside.2.1)⟩
    · rintro ⟨hd, isOpen⟩
      by_cases same : d = c
      · exact .inl same
      · refine .inr ⟨hd, ?_⟩
        unfold IsOpenAt at isOpen own ⊢
        rcases h.apart hc hd with rfl | (before | inside) | before | inside
        · exact absurd rfl same
        · omega
        · exact ⟨inside.1, by have := inside.2.1; omega⟩
        · omega
        · exact absurd isOpen (alone d hd inside)

theorem openAt_stop (h : Nested cs) (hc : c ∈ cs) : openAt cs c.stop = c :: openAt cs c.start := by
  refine h.openAt_innermost hc ⟨h.proper c hc, Nat.le_refl _⟩ fun d _ inside isOpen => ?_
  have := inside.2.1
  exact absurd isOpen.2 (by omega)

/-- Behind a construct the same ones are open as before it. -/
theorem openAt_behind (h : Nested cs) (hc : c ∈ cs) : openAt cs (c.stop + 1) = openAt cs c.start := by
  have proper := h.proper c hc
  refine h.openAt_eq (h.ordered.filter _) fun d => mem_openAt.trans (and_congr_right fun hd => ?_)
  have := h.proper d hd
  unfold IsOpenAt
  rcases h.apart hc hd with rfl | (before | ⟨left, right, -⟩) | before | ⟨left, right, -⟩ <;> omega

/-- At an else and behind it, nothing is open that is inside of either arm. -/
theorem openAt_else (h : Nested cs) (hc : c ∈ cs) {other : Nat} (otherwise : c.otherwise = some other)
    (after : c.start < other) (before : other < c.stop) :
    openAt cs other = c :: openAt cs c.start ∧ openAt cs (other + 1) = c :: openAt cs c.start := by
  constructor
  · refine h.openAt_innermost hc ⟨after, Nat.le_of_lt before⟩ fun d _ inside isOpen => ?_
    have := inside.2.2 other otherwise
    unfold IsOpenAt at isOpen
    omega
  · refine h.openAt_innermost hc ⟨by omega, before⟩ fun d _ inside isOpen => ?_
    have := inside.2.2 other otherwise
    unfold IsOpenAt at isOpen
    omega

/-- The constructs around an open one are those that were open when it was opened. -/
theorem openAt_outer (h : Nested cs) {inner outer : List Construct} (split : openAt cs pos = inner ++ c :: outer) :
    openAt cs c.start = outer := by
  have sorted : (inner ++ c :: outer).Pairwise fun c d => c.stop < d.stop := split ▸ h.ordered.filter _
  obtain ⟨-, sorted, inOrder⟩ := List.pairwise_append.mp sorted
  obtain ⟨later, sorted⟩ := List.pairwise_cons.mp sorted
  have mem : ∀ {d}, d ∈ inner ++ c :: outer ↔ d ∈ cs ∧ d.IsOpenAt pos := split ▸ mem_openAt
  obtain ⟨hc, own⟩ := mem.mp (List.mem_append_right _ List.mem_cons_self)
  unfold IsOpenAt at own
  refine h.openAt_eq sorted fun d => ⟨fun hd => ?_, fun ⟨hd, isOpen⟩ => ?_⟩
  · have after := later d hd
    obtain ⟨hd, isOpen⟩ := mem.mp (List.mem_append_right _ (List.mem_cons_of_mem _ hd))
    unfold IsOpenAt at isOpen ⊢
    refine ⟨hd, ?_⟩
    rcases h.apart hc hd with rfl | (before | ⟨left, right, -⟩) | before | ⟨left, right, -⟩ <;> omega
  · have proper := h.proper d hd
    unfold IsOpenAt at isOpen
    have inside : d.start < c.start ∧ c.stop < d.stop := by
      rcases h.apart hc hd with rfl | (before | ⟨left, right, -⟩) | before | ⟨left, right, -⟩ <;> omega
    rcases List.mem_append.mp (mem.mpr ⟨hd, show d.IsOpenAt pos from ⟨by omega, by omega⟩⟩) with before | hd
    · have := inOrder d before c List.mem_cons_self
      omega
    · rcases List.mem_cons.mp hd with rfl | hd
      · omega
      · exact hd

end Nested
end Construct

namespace Laid
variable {body : ByteArray} {pos next last : Nat} {code : Code} {i : Instr}

open Construct

theorem nested (h : Laid body pos code last) : Nested code.constructs :=
  ⟨fun c hc => (h.construct_bounds c hc).2.1, h.constructs_before⟩

theorem openAt_last (h : Laid body pos code last) : openAt code.constructs last = [] := by
  refine List.filter_eq_nil_iff.mpr fun c hc => ?_
  have := h.construct_bounds c hc
  rw [decide_eq_true_eq]
  rintro ⟨-, isOpen⟩
  omega

/-- Instructions that are neither an opening nor an end leave the same constructs open. -/
theorem openAt_next (h : Laid body 0 code last) (reached : ReadsTo body 0 pos) (read : Instr.read body pos = .ok i next)
    (simple : i.opens? = none) (within : i ≠ .endMark) : openAt code.constructs next = openAt code.constructs pos := by
  refine List.filter_congr fun c hc => decide_eq_decide.mpr ?_
  have found := h.constructs_seen c hc
  obtain ⟨opening, _, opens, kind⟩ := found.opens
  obtain ⟨_, closes⟩ := found.closes
  have bounds := Instr.read_bounds read
  have start := reached.skips read found.start
  have stop := reached.skips read found.stop
  have notStart : c.start ≠ pos := by
    rintro rfl
    rw [read] at opens
    cases opens
    rw [simple] at kind
    cases kind
  have notStop : c.stop ≠ pos := by
    rintro rfl
    rw [read] at closes
    cases closes
    exact within rfl
  unfold IsOpenAt
  omega

/-- An opening opens its construct. -/
theorem openAt_opening (h : Laid body 0 code last) {c : Construct} (hc : c ∈ code.constructs)
    (read : Instr.read body c.start = .ok i next) : openAt code.constructs next = c :: openAt code.constructs c.start := by
  have found := h.constructs_seen c hc
  have bounds := Instr.read_bounds read
  have proper := h.nested.proper c hc
  have stop := found.start.skips read found.stop
  refine h.nested.openAt_innermost hc ⟨by omega, by omega⟩ fun d hd inside isOpen => ?_
  have start := found.start.skips read (h.constructs_seen d hd).start
  have := inside.1
  unfold IsOpenAt at isOpen
  omega

end Laid
end Wasm
