import Wasm.Proofs.Layout
import Wasm.Proofs.Filling

/-! Loading a module section by section: a section is taken just if its bytes spell one, it stands in order, and what it
    refers to is there. -/

namespace Wasm
variable {σ : Type}

/-- The counts that tell of an outline. -/
structure Progress.Counts (p : Progress) (A : Outline) : Prop where
  declared : p.declared = A.functions.length
  bodies : p.bodies = A.code.length
  firstDeclared : A.functions ≠ [] → p.firstDeclared = A.imports.countP ImportEntry.isFunction

namespace Load

/-- A module that has been loaded as far as an outline says, with sections up to a rank. -/
def Reached (resolve : Resolver σ) (options : Options) (A : Outline) (r : Nat) (l : Loading σ) : Prop :=
  ∃ p : Progress, p.Counts A ∧ p.rank = r ∧ l = A.loading resolve options p

variable {α : Type} {resolve : Resolver σ} {options : Options} {base r : Nat} {A : Outline} {part : ByteArray}
  {kind : SectionKind}

theorem reached_start (resolve : Resolver σ) (options : Options) :
    Reached resolve options {} 0 ({ store := { options } } : Loading σ) :=
  ⟨{}, ⟨rfl, rfl, nofun⟩, rfl, by rw [Outline.loading_plain rfl rfl]; rfl⟩

theorem of_reached {β : Type} {op : Load σ β} {Q : β → Loading σ → Prop} {E : Failure → Prop}
    (h : ∀ p : Progress, p.Counts A → p.rank = r → Ensures (fun l => l = A.loading resolve options p) op Q E) :
    Ensures (Reached resolve options A r) op Q E := by
  rintro l ⟨p, counts, rank, same⟩
  exact h p counts rank l same

theorem read_eq_ok {rd : Reader α} {bytes : ByteArray} {pos next : Nat} {l l' : Loading σ} {a : α} :
    read base rd bytes pos l = .ok (a, next) l' ↔ rd bytes pos = .ok a next ∧ l' = l := by
  unfold read
  cases rd bytes pos with
  | ok b stop =>
    constructor
    · rintro ⟨⟩
      exact ⟨rfl, rfl⟩
    · rintro ⟨⟨⟩, rfl⟩
      rfl
  | error e stop =>
    constructor
    · rintro ⟨⟩
    · rintro ⟨⟨⟩, -⟩

theorem forM_eq (es : Array α) (f : α → Load σ PUnit) : es.forM f = es.toList.forM f := by
  obtain ⟨es⟩ := es
  exact List.forM_toArray es f

/-! ### Contents of sections -/

/-- An operation takes the contents of a section of a kind, if they are right. -/
structure Takes (resolve : Resolver σ) (options : Options) (A : Outline) (r : Nat) (kind : SectionKind) (part : ByteArray)
    (op : Load σ Nat) : Prop where
  sound : ∀ {l l' stop}, Reached resolve options A r l → op l = .ok stop l' → part.size ≤ stop →
    ∃ s : Section, s.kind = kind ∧ s.Contents part.data.toList ∧ (A.add s).Right kind ∧
      Reached resolve options (A.add s) r l'
  complete : ∀ {l} {s : Section}, Reached resolve options A r l → s.kind = kind → s.Contents part.data.toList →
    (A.add s).Right kind → ∃ l', op l = .ok part.size l' ∧ Reached resolve options (A.add s) r l'

/-- What a reader recognizes is taken in, and the position behind it given. -/
theorem takes_read {L : Spelling α} {rd : Reader α} (hr : rd.Recognizes L) (small : part.size < addressLimit)
    (con : α → Section) {rest : α × Nat → Load σ Nat} (shape : ∀ s : Section, s.kind = kind ↔ ∃ a, con a = s)
    (contents : ∀ a word, (con a).Contents word ↔ L a word)
    (h : ∀ a pos word, L a word → Ensures (Reached resolve options A r) (rest (a, pos))
      (fun stop l => (A.add (con a)).Right kind ∧ stop = pos ∧ Reached resolve options (A.add (con a)) r l)
      fun _ => ¬(A.add (con a)).Right kind) :
    Takes resolve options A r kind part (read base rd part 0 >>= rest) where
  sound {l l' stop} reached done whole := by
    obtain ⟨⟨a, pos⟩, _, first, second⟩ := bind_eq_ok.mp done
    obtain ⟨taken, rfl⟩ := read_eq_ok.mp first
    obtain ⟨word, spelled, occurs, rfl⟩ := hr.sound taken (Nat.zero_le _)
    obtain ⟨right, rfl, reached⟩ := (h a _ word spelled).ok reached second
    have bound := occurs.bound
    have same := occurs.eq_of_size (by omega)
    refine ⟨con a, (shape _).mpr ⟨a, rfl⟩, (contents a _).mpr ?_, right, reached⟩
    rwa [same, List.data_toByteArray]
  complete {l s} reached ofKind spelled right := by
    obtain ⟨a, rfl⟩ := (shape s).mp ofKind
    have spelled := (contents a _).mp spelled
    have first := hr.complete small spelled (.all part)
    rw [Nat.zero_add, Array.length_toList, ByteArray.size_data] at first
    rw [bind_ok (read_eq_ok.mpr ⟨first, rfl⟩)]
    obtain ⟨stop, l', second, -, rfl, reached⟩ := (h a part.size _ spelled).runs reached fun _ wrong => wrong right
    exact ⟨l', second, reached⟩

/-- The same for a vector, whose items are taken in one after another. -/
theorem takes_vector {L : Spelling α} {item : Reader α} (hr : item.Recognizes L) {e : ReadError} {pos : Nat}
    (proper : item .empty 0 = .error e pos) (small : part.size < addressLimit) (con : List α → Section)
    {rest : Array α × Nat → Load σ Nat} (shape : ∀ s : Section, s.kind = kind ↔ ∃ as, con as = s)
    (contents : ∀ as word, (con as).Contents word ↔ Spelling.Vector L as word)
    (h : ∀ as pos word, Spelling.Vector L as word → Ensures (Reached resolve options A r) (rest (as.toArray, pos))
      (fun stop l => (A.add (con as)).Right kind ∧ stop = pos ∧ Reached resolve options (A.add (con as)) r l)
      fun _ => ¬(A.add (con as)).Right kind) :
    Takes resolve options A r kind part (read base (Reader.vector item) part 0 >>= rest) :=
  takes_read (Reader.vector_recognizes hr (hr.proper proper)) small (fun as => con as.toList)
    (fun s => (shape s).trans ⟨fun ⟨as, same⟩ => ⟨as.toArray, by simpa using same⟩, fun ⟨as, same⟩ => ⟨as.toList, same⟩⟩)
    (fun as word => contents as.toList word) fun as pos word spelled => h as.toList pos word spelled

/-- The same where the items are entries, which are taken in one after another. -/
theorem takes_entries {L : Spelling α} {item : Reader α} (hr : item.Recognizes L) {e : ReadError} {pos : Nat}
    (proper : item .empty 0 = .error e pos) (small : part.size < addressLimit) (con : List α → Section)
    {f : α → Load σ PUnit} (shape : ∀ s : Section, s.kind = kind ↔ ∃ as, con as = s)
    (contents : ∀ as word, (con as).Contents word ↔ Spelling.Vector L as word)
    (counts : ∀ (p : Progress) as, p.Counts A → p.Counts (A.add (con as)))
    (h : ∀ as word p, Spelling.Vector L as word → Ensures (fun l => l = A.loading resolve options p) (as.forM f)
      (fun _ l => (A.add (con as)).Right kind ∧ l = (A.add (con as)).loading resolve options p)
      fun _ => ¬(A.add (con as)).Right kind) :
    Takes resolve options A r kind part (read base (Reader.vector item) part 0 >>= fun (es, pos) => do
      es.forM f
      return pos) :=
  takes_vector hr proper small con shape contents fun as pos word spelled => of_reached fun p told rank => by
    dsimp only
    rw [forM_eq]
    refine (h as word p spelled).bind fun _ => .pure ?_
    rintro l ⟨right, rfl⟩
    exact ⟨right, rfl, p, counts p as told, rank, rfl⟩

theorem types_takes (small : part.size < addressLimit) :
    Takes resolve options (A.below SectionKind.types.rank) r .types part (payload resolve base part .types) := by
  refine takes_vector Reader.funcType_recognizes rfl small Section.types
    (fun s => by cases s <;> simp [Section.kind]) (fun _ _ => Iff.rfl) fun ts pos _ _ => of_reached fun p counts rank => ?_
  rintro l rfl
  refine ⟨trivial, rfl, p, ⟨counts.declared, counts.bodies, counts.firstDeclared⟩, rank, ?_⟩
  rw [Outline.loading_plain rfl rfl, Outline.loading_plain rfl rfl]
  rfl

theorem imports_takes (small : part.size < addressLimit) :
    Takes resolve options (A.below SectionKind.imports.rank) r .imports part (payload resolve base part .imports) := by
  refine takes_entries Reader.importEntry_recognizes rfl small Section.imports
    (fun s => by cases s <;> simp [Section.kind]) (fun _ _ => Iff.rfl)
    (fun p _ counts => ⟨counts.declared, counts.bodies, fun none => absurd rfl none⟩) fun es word p spelled => ?_
  have entries := Ensures.forM_all es (importEntry resolve base)
    (fun done => Outline.loading { types := A.types, imports := done } resolve options p)
    fun done e _ => importEntry_loading e
  have valid : ∀ e ∈ es, ∀ limits, e.kind = .memory limits → limits.Valid := by
    intro e he limits memory
    obtain ⟨_, entry⟩ := spelled.mem he
    exact entry.valid memory
  refine (entries.weaken (fun _ h => h) fun _ l h => ⟨fun e he => ⟨h.1 e he, valid e he⟩, h.2⟩).raising ?_
  exact fun _ wrong right => wrong fun e he => (right e he).1

theorem functions_takes (small : part.size < addressLimit) :
    Takes resolve options (A.below SectionKind.functions.rank) r .functions part (payload resolve base part .functions) := by
  refine takes_vector Reader.u32_recognizes rfl small Section.functions
    (fun s => by cases s <;> simp [Section.kind]) (fun _ _ => Iff.rfl) fun indices pos word spelled =>
    of_reached fun p counts rank => ?_
  let p' : Progress := { p with firstDeclared := A.imports.countP ImportEntry.isFunction, declared := indices.length }
  have entries := Ensures.forM_all indices (functionEntry base)
    (fun done => Outline.loading { A.below SectionKind.functions.rank with functions := done } resolve options p')
    fun done index _ => functionEntry_loading rfl rfl rfl done index
  rintro l rfl
  have size : ((A.below SectionKind.functions.rank).loading resolve options p).module.functions.size =
      A.imports.countP ImportEntry.isFunction := Outline.size_functionTable
  dsimp only
  rw [bind_ok (modify_apply _ _), forM_eq, size, List.size_toArray]
  refine (entries.bind fun _ => .pure ?_) _ rfl
  rintro l ⟨right, rfl⟩
  exact ⟨right, rfl, p', ⟨rfl, counts.bodies, fun _ => rfl⟩, rank, rfl⟩

theorem memories_takes (small : part.size < addressLimit) :
    Takes resolve options (A.below SectionKind.memories.rank) r .memories part (payload resolve base part .memories) := by
  refine takes_entries Reader.limits_recognizes rfl small Section.memories
    (fun s => by cases s <;> simp [Section.kind]) (fun _ _ => Iff.rfl)
    (fun p _ counts => ⟨counts.declared, counts.bodies, counts.firstDeclared⟩) fun limits word p spelled => ?_
  have entries := Ensures.forM_all limits addMemory
    (fun done => Outline.loading { A.below SectionKind.memories.rank with memories := done } resolve options p)
    (c := fun _ => True) fun done limits _ => .of_ok fun l same =>
      ⟨(), _, same ▸ addMemory_loading rfl rfl done limits, trivial, rfl⟩
  have valid : ∀ l ∈ limits, l.Valid := by
    intro l hl
    obtain ⟨_, bounds⟩ := spelled.mem hl
    exact bounds.valid
  exact (entries.weaken (fun _ h => h) fun _ l h => ⟨valid, h.2⟩).raising fun _ wrong => absurd (fun _ _ => trivial) wrong

theorem globals_takes (small : part.size < addressLimit) :
    Takes resolve options (A.below SectionKind.globals.rank) r .globals part (payload resolve base part .globals) := by
  refine takes_entries Reader.globalEntry_recognizes rfl small Section.globals
    (fun s => by cases s <;> simp [Section.kind]) (fun _ _ => Iff.rfl)
    (fun p _ counts => ⟨counts.declared, counts.bodies, counts.firstDeclared⟩) fun es word p spelled => ?_
  exact Ensures.forM_along es (globalEntry base)
    (fun done => Outline.loading { A.below SectionKind.globals.rank with globals := done } resolve options p)
    fun done e rest same right => globalEntry_loading rfl rfl done e right

theorem exports_takes (small : part.size < addressLimit) :
    Takes resolve options (A.below SectionKind.exports.rank) r .exports part (payload resolve base part .exports) := by
  refine takes_entries Reader.exportEntry_recognizes rfl small Section.exports
    (fun s => by cases s <;> simp [Section.kind]) (fun _ _ => Iff.rfl)
    (fun p _ counts => ⟨counts.declared, counts.bodies, counts.firstDeclared⟩) fun es word p spelled => ?_
  exact Ensures.forM_all es (exportEntry base)
    (fun done => Outline.loading { A.below SectionKind.exports.rank with exports := done } resolve options p)
    fun done e _ => exportEntry_loading done e

theorem data_takes (small : part.size < addressLimit)
    (right : ∀ kind ≠ .code, (A.below SectionKind.data.rank).Right kind) :
    Takes resolve options (A.below SectionKind.data.rank) r .data part (payload resolve base part .data) := by
  refine takes_entries Reader.dataEntry_recognizes rfl small Section.data
    (fun s => by cases s <;> simp [Section.kind]) (fun _ _ => Iff.rfl)
    (fun p _ counts => ⟨counts.declared, counts.bodies, counts.firstDeclared⟩) fun es word p spelled => ?_
  exact Ensures.forM_all es (dataEntry base)
    (fun done => Outline.loading { A.below SectionKind.data.rank with data := done } resolve options p)
    fun done e fits => dataEntry_loading
      (Outline.memoryLimits_valid (right .imports (by decide)) (right .memories (by decide)))
      (Outline.globalList_types (right .globals (by decide))) done e fits

theorem code_takes (small : part.size < addressLimit) :
    Takes resolve options (A.below SectionKind.code.rank) r .code part (payload resolve base part .code) := by
  refine takes_vector Reader.codeEntry_recognizes rfl small Section.code
    (fun s => by cases s <;> simp [Section.kind]) (fun _ _ => Iff.rfl) fun es pos word spelled =>
    of_reached fun p counts rank => ?_
  rintro l rfl
  dsimp only
  rw [bind_ok (get_apply _)]
  have declared : ((A.below SectionKind.code.rank).loading resolve options p).declared = A.functions.length :=
    counts.declared
  rw [declared, List.size_toArray]
  by_cases right : es.length = A.functions.length
  · rw [if_neg (not_not.mpr right), bind_ok (set_apply _ _)]
    let p' : Progress := { p with bodies := es.length }
    -- The first declared function comes right after the imported ones, if one is declared at all.
    have attached : attach base p.firstDeclared es ((A.below SectionKind.code.rank).loading resolve options p') =
        .ok () (((A.below SectionKind.code.rank).add (.code es)).loading resolve options p') := by
      by_cases none : A.functions = []
      · obtain rfl : es = [] := List.length_eq_zero_iff.mp (by rw [right, none]; rfl)
        rfl
      · have first : p.firstDeclared = ((A.below SectionKind.code.rank).importedFunctions resolve).length + 0 := by
          rw [Outline.length_importedFunctions]
          exact counts.firstDeclared none
        rw [first]
        exact attach_loading (A := A.below SectionKind.code.rank) es [] right
    have ran : Ensures (fun l => l = (A.below SectionKind.code.rank).loading resolve options p')
        (attach base p.firstDeclared es)
        (fun _ l => l = ((A.below SectionKind.code.rank).add (.code es)).loading resolve options p')
        fun _ => ¬((A.below SectionKind.code.rank).add (.code es)).Right .code :=
      .of_ok fun l same => ⟨(), _, same ▸ attached, rfl⟩
    refine (ran.bind fun _ => .pure ?_) _ (by rw [← declared]; rfl)
    rintro l rfl
    exact ⟨right, rfl, p', ⟨counts.declared, rfl, counts.firstDeclared⟩, rank, rfl⟩
  · rw [if_pos right]
    exact right

theorem start_takes (small : part.size < addressLimit) :
    Takes resolve options (A.below SectionKind.start.rank) r .start part (payload resolve base part .start) := by
  refine takes_read Reader.u32_recognizes small Section.start (fun s => by cases s <;> simp [Section.kind])
    (fun _ _ => Iff.rfl) fun index pos _ _ => of_reached fun p counts rank => ?_
  rintro l rfl
  exact ⟨trivial, rfl, p, ⟨counts.declared, counts.bodies, counts.firstDeclared⟩, rank, rfl⟩

theorem dataCount_takes (small : part.size < addressLimit) :
    Takes resolve options A r .dataCount part (payload resolve base part .dataCount) :=
  takes_read Reader.u32_recognizes small Section.dataCount (fun s => by cases s <;> simp [Section.kind])
    (fun _ _ => Iff.rfl) fun _ _ _ _ _ reached => ⟨trivial, rfl, reached⟩

/-- Nothing is kept of custom sections, tables and elements. -/
theorem ignored_takes {s : Section} (shape : ∀ t : Section, t.kind = s.kind ↔ t = s) (contents : ∀ word, s.Contents word)
    (right : A.Right s.kind) (same : A.add s = A) :
    Takes resolve options A r s.kind part (fun l => .ok part.size l) where
  sound reached done _ := by
    cases done
    exact ⟨s, rfl, contents _, by rwa [same], by rwa [same]⟩
  complete {l t} reached ofKind _ _ := by
    obtain rfl := (shape t).mp ofKind
    exact ⟨l, rfl, by rwa [same]⟩

theorem payload_takes (small : part.size < addressLimit) (later : kind ≠ .custom → A.below kind.rank = A)
    (right : ∀ kind ≠ .code, A.Right kind) : Takes resolve options A r kind part (payload resolve base part kind) := by
  cases kind with
  | custom =>
    exact ignored_takes (s := .custom) (fun s => by cases s <;> simp [Section.kind]) (fun _ => trivial) trivial rfl
  | tables =>
    exact ignored_takes (s := .tables) (fun s => by cases s <;> simp [Section.kind]) (fun _ => trivial) trivial rfl
  | elements =>
    exact ignored_takes (s := .elements) (fun s => by cases s <;> simp [Section.kind]) (fun _ => trivial) trivial rfl
  | dataCount => exact dataCount_takes small
  | types => exact later (by decide) ▸ types_takes small
  | imports => exact later (by decide) ▸ imports_takes small
  | functions => exact later (by decide) ▸ functions_takes small
  | memories => exact later (by decide) ▸ memories_takes small
  | globals => exact later (by decide) ▸ globals_takes small
  | exports => exact later (by decide) ▸ exports_takes small
  | start => exact later (by decide) ▸ start_takes small
  | code => exact later (by decide) ▸ code_takes small
  | data => exact later (by decide) ▸ data_takes small ((later (by decide)).symm ▸ right)

/-! ### Sections -/

theorem sectionHeader_sound {bytes : ByteArray} {pos next : Nat} {header : SectionHeader}
    (done : Reader.sectionHeader bytes pos = .ok header next) : ∃ b u, SectionKind.ofId? b.toNat = some header.kind ∧
      Spelling.u32 header.size u ∧ Occurs (b :: u) bytes pos ∧ next = pos + (b :: u).length := by
  obtain ⟨_, _, here, rest⟩ := Decoder.bind_ok_iff.mp done
  cases here
  obtain ⟨b, _, first, rest⟩ := Decoder.bind_ok_iff.mp rest
  obtain ⟨inside, same, rfl⟩ := Reader.byte_eq_ok.mp first
  cases known : SectionKind.ofId? b.toNat with
  | none =>
    rw [known] at rest
    cases rest
  | some kind =>
    rw [known] at rest
    obtain ⟨size, _, counted, rest⟩ := Decoder.bind_ok_iff.mp rest
    obtain ⟨_, _, there, rest⟩ := Decoder.bind_ok_iff.mp rest
    cases there
    cases rest
    obtain ⟨u, spelled, occurs, rfl⟩ := Reader.u32_recognizes.sound counted inside
    exact ⟨b, u, known, spelled, Occurs.cons.mpr ⟨Occurs.singleton.mpr ⟨inside, same⟩, occurs⟩,
      by rw [List.length_cons]; omega⟩

theorem sectionHeader_complete {bytes : ByteArray} {pos size : Nat} {kind : SectionKind} {b : UInt8} {u : List UInt8}
    (small : bytes.size < addressLimit) (known : SectionKind.ofId? b.toNat = some kind) (spelled : Spelling.u32 size u)
    (occurs : Occurs (b :: u) bytes pos) :
    Reader.sectionHeader bytes pos = .ok ⟨kind, size, pos + (b :: u).length⟩ (pos + (b :: u).length) := by
  obtain ⟨first, there⟩ := Occurs.cons.mp occurs
  refine Decoder.bind_ok_iff.mpr ⟨_, _, rfl, Decoder.bind_ok_iff.mpr ⟨b, pos + 1, ?_, ?_⟩⟩
  · obtain ⟨inside, same⟩ := Occurs.singleton.mp first
    exact Reader.byte_eq_ok.mpr ⟨inside, same, rfl⟩
  · rw [known]
    refine Decoder.bind_ok_iff.mpr ⟨_, _, Reader.u32_recognizes.complete small spelled there, ?_⟩
    rw [List.length_cons, Nat.add_comm u.length, ← Nat.add_assoc]
    rfl

theorem advance_reached (base : Nat) : Ensures (Reached resolve options A r) (advance base kind)
    (fun _ l => (kind ≠ .custom → r < kind.rank) ∧ Reached resolve options A (max r kind.rank) l)
    fun _ => ¬(kind ≠ .custom → r < kind.rank) := by
  unfold advance
  split
  · rename_i other
    refine of_reached fun p counts rank => ?_
    rintro l rfl
    have reached : (A.loading resolve options p).rank = r := rank
    rw [bind_ok (get_apply _), reached]
    by_cases ahead : r < kind.rank
    · rw [if_neg (Nat.not_le.mpr ahead), Nat.max_eq_right (Nat.le_of_lt ahead)]
      exact ⟨fun _ => ahead, { p with rank := kind.rank },
        ⟨counts.declared, counts.bodies, counts.firstDeclared⟩, rfl, rfl⟩
    · rw [if_pos (Nat.not_lt.mp ahead)]
      exact fun order => ahead (order other)
  · rename_i custom
    obtain rfl := Decidable.not_not.mp custom
    exact .pure fun l reached => ⟨nofun, by rwa [show max r SectionKind.custom.rank = r from Nat.max_zero r]⟩

variable {bytes : ByteArray} {done : List Section} {l l' : Loading σ} {pos : Nat}

/-- A module that has been loaded as far as some sections say. -/
def Through (resolve : Resolver σ) (options : Options) (sections : List Section) (l : Loading σ) : Prop :=
  Reached resolve options (.of sections) (Section.lastRank sections) l

/-- What stands in a section is taken behind the sections before it. -/
theorem payload_follows (fitting : Section.Fitting done) (small : part.size < addressLimit)
    (order : kind ≠ .custom → Section.lastRank done < kind.rank) (base : Nat) :
    Takes resolve options (.of done) r kind part (payload resolve base part kind) :=
  payload_takes small (fun other => Outline.of_below ((Section.lastRank_lt (Section.rank_pos.mpr other)).mp (order other)))
    fun _ => fitting.all

theorem fitting_next (fitting : Section.Fitting done) {s : Section} : Section.Fitting (done ++ [s]) ↔
    (s.kind ≠ .custom → Section.lastRank done < s.kind.rank) ∧ ((Outline.of done).add s).Right s.kind := by
  rw [Section.fitting_concat, and_iff_right fitting]
  exact and_congr_left fun _ => forall_congr' fun other => (Section.lastRank_lt (Section.rank_pos.mpr other)).symm

/-- A section that is taken follows those before it. -/
theorem oneSection_sound {next : Nat} (fitting : Section.Fitting done) (through : Through resolve options done l)
    (taken : oneSection resolve bytes pos l = .ok next l') : ∃ s word, Section.Spelled s word ∧ Occurs word bytes pos ∧
      next = pos + word.length ∧ Section.Fitting (done ++ [s]) ∧ Through resolve options (done ++ [s]) l' := by
  obtain ⟨⟨header, start⟩, _, first, rest⟩ := bind_eq_ok.mp taken
  obtain ⟨headed, rfl⟩ := read_eq_ok.mp first
  obtain ⟨⟨part, stop⟩, _, second, rest⟩ := bind_eq_ok.mp rest
  obtain ⟨parted, rfl⟩ := read_eq_ok.mp second
  obtain ⟨b, u, known, counted, occurs, rfl⟩ := sectionHeader_sound headed
  obtain ⟨near, -, -, -⟩ := Reader.bytes_eq_ok.mp parted
  obtain ⟨v, ⟨size, rfl⟩, there, rfl⟩ := (Reader.bytes_recognizes _).sound parted occurs.bound
  obtain ⟨_, l₁, advanced, rest⟩ := bind_eq_ok.mp rest
  obtain ⟨order, reached⟩ := (advance_reached _).ok through advanced
  obtain ⟨stop, l₂, inside, rest⟩ := bind_eq_ok.mp rest
  dsimp only at rest
  split at rest
  · cases rest
  -- A payload that leaves bytes of its section unread has been refused.
  · rename_i whole
    cases rest
    obtain ⟨s, ofKind, contents, right, reached⟩ :=
      (payload_follows fitting (by simp; omega) order _).sound reached inside (Nat.not_lt.mp whole)
    rw [List.data_toByteArray] at contents
    rw [← ofKind] at known order reached right
    refine ⟨s, b :: (u ++ v), .mk known (by rwa [size]) contents, Occurs.append.mpr ⟨occurs, there⟩, by simp; omega,
      (fitting_next fitting).mpr ⟨order, right⟩, ?_⟩
    rwa [Through, Outline.of_concat, Section.lastRank_concat]

/-- A section that follows those before it is taken. -/
theorem oneSection_complete (small : bytes.size < addressLimit) {s : Section} {word : List UInt8}
    (fitting : Section.Fitting (done ++ [s])) (through : Through resolve options done l) (spelled : s.Spelled word)
    (occurs : Occurs word bytes pos) :
    ∃ l', oneSection resolve bytes pos l = .ok (pos + word.length) l' ∧ Through resolve options (done ++ [s]) l' := by
  obtain ⟨order, right⟩ := (fitting_next fitting.front).mp fitting
  cases spelled with
  | @mk s b u v known counted contents =>
  obtain ⟨here, there⟩ := Occurs.append (u := b :: u).mp occurs
  have bound := there.bound
  have headed := sectionHeader_complete small known counted here
  have parted := (Reader.bytes_recognizes v.length).complete small ⟨rfl, rfl⟩ there
  have size : v.toByteArray.size = v.length := by simp
  obtain ⟨_, l₁, advanced, -, reached⟩ :=
    (advance_reached (pos + (b :: u).length)).runs through fun _ wrong => wrong order
  obtain ⟨l₂, inside, reached⟩ := (payload_follows fitting.front (by rw [size]; omega) order
    (pos + (b :: u).length)).complete reached rfl (by rwa [List.data_toByteArray]) right
  refine ⟨l₂, ?_, by rwa [Through, Outline.of_concat, Section.lastRank_concat]⟩
  unfold oneSection
  rw [bind_ok (read_eq_ok.mpr ⟨headed, rfl⟩)]
  dsimp only
  rw [bind_ok (read_eq_ok.mpr ⟨parted, rfl⟩)]
  dsimp only
  rw [bind_ok advanced, bind_ok inside, if_neg (Nat.lt_irrefl _), Nat.add_assoc, ← List.length_append, List.cons_append]
  rfl

/-! ### Modules -/

theorem sections_sound : ∀ {fuel pos : Nat} {done : List Section} {l : Loading σ}, Section.Fitting done →
    Through resolve options done l → pos ≤ bytes.size → bytes.size - pos ≤ fuel →
    sections resolve bytes fuel pos l = .ok () l' → ∃ rest word, Spelling.Items Section.Spelled rest word ∧
      Occurs word bytes pos ∧ pos + word.length = bytes.size ∧ Section.Fitting (done ++ rest) ∧
      Through resolve options (done ++ rest) l' := by
  intro fuel
  induction fuel with
  | zero =>
    intro pos done l fitting through inside enough taken
    cases taken
    exact ⟨[], [], .nil, .nil inside, by simp; omega, by simpa using fitting, by simpa using through⟩
  | succ fuel ih =>
    intro pos done l fitting through inside enough taken
    rw [sections] at taken
    split at taken
    · cases taken
      exact ⟨[], [], .nil, .nil inside, by simp; omega, by simpa using fitting, by simpa using through⟩
    · obtain ⟨next, l₁, first, rest⟩ := bind_eq_ok.mp taken
      obtain ⟨s, u, spelled, occurs, rfl, fitting, through⟩ := oneSection_sound fitting through first
      -- A section has its number at least, so that the fuel lasts.
      have some : 0 < u.length := by
        cases spelled
        exact Nat.zero_lt_succ _
      obtain ⟨others, v, items, there, stop, fitting, through⟩ := ih fitting through occurs.bound (by omega) rest
      rw [List.append_assoc] at fitting through
      exact ⟨s :: others, u ++ v, .cons spelled items, Occurs.append.mpr ⟨occurs, there⟩,
        by rw [List.length_append]; omega, fitting, through⟩

theorem sections_complete (small : bytes.size < addressLimit) {rest : List Section} {word : List UInt8}
    (items : Spelling.Items Section.Spelled rest word) : ∀ {fuel pos : Nat} {done : List Section} {l : Loading σ},
    Section.Fitting (done ++ rest) → Through resolve options done l → Occurs word bytes pos →
    pos + word.length = bytes.size → bytes.size - pos ≤ fuel →
    ∃ l', sections resolve bytes fuel pos l = .ok () l' ∧ Through resolve options (done ++ rest) l' := by
  induction items with
  | nil =>
    intro fuel pos done l fitting through occurs stop enough
    refine ⟨l, ?_, by rwa [List.append_nil]⟩
    rw [List.length_nil] at stop
    cases fuel with
    | zero => rfl
    | succ fuel =>
      rw [sections, if_pos (by omega)]
      rfl
  | @cons s rest u v spelled items ih =>
    intro fuel pos done l fitting through occurs stop enough
    rw [List.append_cons] at fitting ⊢
    obtain ⟨first, there⟩ := Occurs.append.mp occurs
    obtain ⟨l₁, taken, through⟩ := oneSection_complete small fitting.front through spelled first
    have some : 0 < u.length := by
      cases spelled
      exact Nat.zero_lt_succ _
    rw [List.length_append] at stop
    obtain ⟨fuel, rfl⟩ : ∃ n, fuel = n + 1 := ⟨fuel - 1, by omega⟩
    obtain ⟨l', others, through⟩ : ∃ l', sections resolve bytes fuel (pos + u.length) l₁ = .ok () l' ∧ _ :=
      ih fitting through there (by omega) (by omega)
    refine ⟨l', ?_, through⟩
    rw [sections, if_neg (by omega), bind_ok taken, others]

theorem expect_sound {offset : Nat} {word : ByteArray} {defect : Defect}
    (h : expect bytes offset word defect l = .ok () l') :
    Occurs word.data.toList bytes offset ∧ offset + 4 ≤ bytes.size ∧ l' = l := by
  unfold expect at h
  cases found : Reader.bytes 4 bytes offset with
  | ok part next =>
    obtain ⟨-, inside, rfl, -⟩ := Reader.bytes_eq_ok.mp found
    rw [found] at h
    dsimp only at h
    split at h
    · rename_i same
      cases h
      exact ⟨same ▸ .of_extract inside, inside, rfl⟩
    · cases h
  | error e next =>
    rw [found] at h
    cases h

theorem expect_complete (small : bytes.size < addressLimit) {offset : Nat} {word : ByteArray} {defect : Defect}
    (size : word.size = 4) (occurs : Occurs word.data.toList bytes offset) :
    expect bytes offset word defect l = .ok () l := by
  have found := (Reader.bytes_recognizes 4).complete small ⟨by simpa using size, rfl⟩ occurs
  unfold expect
  rw [found, toByteArray_toList]
  dsimp only
  rw [if_pos rfl]
  rfl

end Load

namespace Outline

/-- A module that has been loaded is what an outline gives. -/
structure Gives (A : Outline) (resolve : Resolver σ) (options : Options) (l : Loading σ) : Prop where
  module : l.module = (A.module resolve).withJumps (A.store options)
  store : l.store = A.store options
  notices : l.notices = A.notices

end Outline

variable {resolve : Resolver σ} {options : Options} {bytes : ByteArray} {l : Loading σ}

/-- The bytes of a module that is accepted spell sections that are right. -/
theorem Module.decode_sound (h : decode bytes options resolve = .ok () l) : ∃ sections,
    Section.SpelledModule sections bytes.data.toList ∧ Section.Ordered sections ∧
      (Outline.of sections).WellFormed ∧ (Outline.of sections).Gives resolve options l := by
  obtain ⟨_, _, magic, h⟩ := bind_eq_ok.mp h
  obtain ⟨first, -, rfl⟩ := Load.expect_sound magic
  obtain ⟨_, _, version, h⟩ := bind_eq_ok.mp h
  obtain ⟨second, inside, rfl⟩ := Load.expect_sound version
  obtain ⟨_, l₁, read, h⟩ := bind_eq_ok.mp h
  obtain ⟨sections, word, items, occurs, stop, fitting, p, counts, -, rfl⟩ :=
    Load.sections_sound Section.fitting_nil (Load.reached_start _ _) inside (by omega) read
  rw [List.nil_append] at fitting counts h
  rw [bind_ok (get_apply _)] at h
  have declared : ((Outline.of sections).loading resolve options p).declared = (Outline.of sections).functions.length :=
    counts.declared
  have bodies : ((Outline.of sections).loading resolve options p).bodies = (Outline.of sections).code.length :=
    counts.bodies
  rw [declared, bodies] at h
  split at h
  · cases h
  · rename_i same
    cases h
    have whole := Occurs.append.mpr ⟨first, Occurs.append.mpr ⟨second, occurs⟩⟩
    refine ⟨sections, ?_, fitting.ordered, fun kind => ?_, rfl, rfl, rfl⟩
    · rw [whole.eq_of_size (by simpa [Load.magic, Load.version] using by omega), List.data_toByteArray]
      exact .mk items
    -- Without a code section the numbers have been compared nowhere else than at the end.
    · by_cases code : kind = .code
      · subst kind
        exact (Decidable.not_not.mp same).symm
      · exact fitting.all code

/-- Bytes that spell sections that are right are accepted. -/
theorem Module.decode_complete (small : bytes.size < addressLimit) {sections : List Section}
    (spelled : Section.SpelledModule sections bytes.data.toList) (ordered : Section.Ordered sections)
    (right : (Outline.of sections).WellFormed) :
    ∃ l, decode bytes options resolve = .ok () l ∧ (Outline.of sections).Gives resolve options l := by
  generalize same : bytes.data.toList = whole at spelled
  obtain @⟨_, word, items⟩ := spelled
  have size := congrArg List.length same
  rw [Array.length_toList, ByteArray.size_data, List.length_append, List.length_append] at size
  obtain ⟨first, rest⟩ := Occurs.append.mp (same ▸ Occurs.all bytes)
  obtain ⟨second, there⟩ := Occurs.append.mp rest
  have second : Occurs Load.version.data.toList bytes 4 := second
  have there : Occurs word bytes 8 := there
  have stop : 8 + word.length = bytes.size := by
    rw [size, ← Nat.add_assoc]
    rfl
  have fitting : Section.Fitting ([] ++ sections) := ⟨ordered, fun s _ => right s.kind⟩
  obtain ⟨_, read, p, counts, -, rfl⟩ := Load.sections_complete small items fitting
    (Load.reached_start resolve options) there stop (Nat.sub_le _ _)
  rw [List.nil_append] at counts read
  refine ⟨{ (Outline.of sections).loading resolve options p with
    module := ((Outline.of sections).module resolve).withJumps ((Outline.of sections).store options) }, ?_, rfl, rfl, rfl⟩
  have same : ((Outline.of sections).loading resolve options p).declared =
      ((Outline.of sections).loading resolve options p).bodies :=
    counts.declared.trans ((right .code).symm.trans counts.bodies.symm)
  unfold decode Load.container
  rw [bind_ok (Load.expect_complete small rfl first), bind_ok (Load.expect_complete  small rfl second), bind_ok read,
    bind_ok (get_apply _), if_neg (not_not.mpr same)]
  rfl

end Wasm
