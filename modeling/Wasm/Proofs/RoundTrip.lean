import Wasm.Proofs.Container

/-! Loading undoes spelling: whatever spelling of a well-formed module is loaded, the tables are what the module says. -/

namespace Wasm

theorem Spelling.Items.length_le_mul {α : Type} {L : Spelling α} {as : List α} {word : List UInt8} {n : Nat}
    (bound : ∀ a u, L a u → u.length ≤ n) (h : L.Items as word) : word.length ≤ as.length * n := by
  induction h with
  | nil => exact Nat.zero_le _
  | cons first _ ih =>
    have := bound _ _ first
    rw [List.length_append, List.length_cons, Nat.add_mul]
    omega

namespace Section
variable {s : Section} {sections : List Section} {word : List UInt8}

/-- The size of a section has 32 bits. -/
theorem Spelled.length_le (h : s.Spelled word) : word.length ≤ 2 ^ 33 := by
  obtain ⟨-, size, -⟩ := h
  have few : _ ≤ 5 := size.inTime
  have fits := size.fits
  rw [List.length_cons, List.length_append]
  omega

/-- Sections that stand in order are not more than their ranks. -/
theorem length_le_lastRank (ordered : Ordered sections) (standard : ∀ s ∈ sections, s.kind ≠ .custom) :
    sections.length ≤ lastRank sections := by
  induction sections using List.reverseRecOn with
  | nil => exact Nat.le_refl 0
  | append_singleton sections s ih =>
    obtain ⟨before, order⟩ := ordered_concat.mp ordered
    have other := standard s (by simp)
    have last := (lastRank_lt (rank_pos.mpr other)).mpr (order other)
    have := ih before fun t ht => standard t (by simp [ht])
    rw [lastRank_concat, List.length_append, List.length_singleton]
    omega

theorem lastRank_le : lastRank sections ≤ 12 :=
  Nat.le_of_lt_succ ((lastRank_lt (by decide)).mpr fun s _ => by cases s.kind <;> decide)

/-- Without custom sections a module cannot be too long to be read. -/
theorem SpelledModule.length_lt (h : SpelledModule sections word) (ordered : Ordered sections)
    (standard : ∀ s ∈ sections, s.kind ≠ .custom) : word.length < addressLimit := by
  obtain ⟨items⟩ := h
  have long := items.length_le_mul fun _ _ => Spelled.length_le
  have few := Nat.le_trans (length_le_lastRank ordered standard) lastRank_le
  have header : Load.magic.data.toList.length = 4 ∧ Load.version.data.toList.length = 4 := ⟨rfl, rfl⟩
  have limit : addressLimit = 2 ^ 64 := rfl
  rw [List.length_append, List.length_append, header.1, header.2, limit]
  omega

end Section

/-- All that an outline tells, in sections. -/
def Outline.layout (A : Outline) : List Section :=
  [.types A.types, .imports A.imports, .functions A.functions, .memories A.memories, .globals A.globals,
    .exports A.exports] ++ (A.start.map Section.start).toList ++ [.code A.code, .data A.data]

/-- Every outline can be laid out in sections. -/
theorem Outline.of_layout (A : Outline) : of A.layout = A ∧ Section.Ordered A.layout := by
  obtain ⟨_, _, _, _, _, _, _ | index, _, _⟩ := A
  · exact ⟨rfl, by simp [layout, Section.Ordered, Section.kind, SectionKind.rank]⟩
  · exact ⟨rfl, by simp [layout, Section.Ordered, Section.kind, SectionKind.rank]⟩

variable {σ : Type}

/-- Sections in order that say what is right, spelled in any way, are loaded, and give the functions, memories, globals
    and data segments that they tell of. -/
theorem Module.decode_spelled (A : Outline) (right : A.WellFormed) (sections : List Section)
    (order : Section.Ordered sections) (presents : Outline.of sections = A) (bytes : ByteArray)
    (spelled : Section.SpelledModule sections bytes.data.toList)
    (small : (∃ s ∈ sections, s.kind = .custom) → bytes.size < addressLimit) (options : Options) (resolve : Resolver σ) :
    ∃ l, decode bytes options resolve = .ok () l ∧ A.Gives resolve options l := by
  subst presents
  refine decode_complete ?_ spelled order right
  by_cases custom : ∃ s ∈ sections, s.kind = .custom
  · exact small custom
  · have := spelled.length_lt order fun s hs same => custom ⟨s, hs, same⟩
    rwa [Array.length_toList, ByteArray.size_data] at this

namespace Sample
open Spelling

/-- A module with a function, a memory, a global, and an active and a passive data segment. -/
def sections : List Section :=
  [.types [⟨[], [.i32]⟩], .functions [0], .memories [⟨1, none⟩], .globals [⟨.i32, true, .value (.i32 7)⟩],
    .exports [⟨"f", .func, 0⟩], .code [⟨[.i64, .i64], ⟨#[0x41, 0x2A, 0x0B]⟩⟩],
    .data [⟨.active 0 (.value (.i32 2)), ⟨#[0x41]⟩⟩, ⟨.passive, ⟨#[0x42]⟩⟩]]

/-- The count of the signatures takes two bytes. -/
def bytes : ByteArray :=
  ⟨#[0x00, 0x61, 0x73, 0x6D, 1, 0, 0, 0, 1, 6, 0x81, 0x00, 0x60, 0, 1, 0x7F, 3, 2, 1, 0, 5, 3, 1, 0, 1,
    6, 6, 1, 0x7F, 1, 0x41, 7, 0x0B, 7, 5, 1, 1, 0x66, 0, 0, 10, 8, 1, 6, 1, 2, 0x7E, 0x41, 0x2A, 0x0B,
    11, 10, 2, 0, 0x41, 2, 0x0B, 1, 0x41, 1, 1, 0x42]⟩

theorem spelled : Section.SpelledModule sections bytes.data.toList := by
  have i32 (v : BitVec 32) (b : UInt8) (last : Leb128.continues b = false) (same : Leb128.lastSigned b = v.toInt)
      (least : -2 ^ 31 ≤ v.toInt) (fits : v.toInt < 2 ^ 31) :
      (ConstExpr.value (.i32 v)).Spelled [0x41, b, 0x0B] :=
    .mk (u := [0x41, b]) (.i32 ⟨same ▸ .last last, show 1 ≤ Leb128.maxBytes 32 by decide, least, fits⟩)
  have types : Section.Spelled (.types [⟨[], [.i32]⟩]) [1, 6, 0x81, 0x00, 0x60, 0, 1, 0x7F] :=
    .mk (u := [6]) (v := [0x81, 0x00, 0x60, 0, 1, 0x7F]) rfl (u32_single rfl rfl) <|
      .mk (u := [0x81, 0x00]) ⟨.more (b := 0x81) (n := 0) rfl (.last (b := 0) rfl), by decide, by decide⟩ <|
        .cons (u := [0x60, 0, 1, 0x7F]) (.mk (u := [0]) (v := [1, 0x7F]) (.mk (u32_single rfl rfl) .nil)
          (.mk (u := [1]) (u32_single rfl rfl) (.cons (u := [0x7F]) rfl .nil))) .nil
  have functions : Section.Spelled (.functions [0]) [3, 2, 1, 0] :=
    .mk (u := [2]) (v := [1, 0]) rfl (u32_single rfl rfl) <|
      .mk (u := [1]) (u32_single rfl rfl) (.cons (u := [0]) (u32_single rfl rfl) .nil)
  have memories : Section.Spelled (.memories [⟨1, none⟩]) [5, 3, 1, 0, 1] :=
    .mk (u := [3]) (v := [1, 0, 1]) rfl (u32_single rfl rfl) <|
      .mk (u := [1]) (u32_single rfl rfl) (.cons (u := [0, 1]) (.least (u32_single rfl rfl)) .nil)
  have globals : Section.Spelled (.globals [⟨.i32, true, .value (.i32 7)⟩]) [6, 6, 1, 0x7F, 1, 0x41, 7, 0x0B] :=
    .mk (u := [6]) (v := [1, 0x7F, 1, 0x41, 7, 0x0B]) rfl (u32_single rfl rfl) <|
      .mk (u := [1]) (u32_single rfl rfl) <| .cons (u := [0x7F, 1, 0x41, 7, 0x0B])
        (.mk (u := [0x7F]) (v := [1]) rfl .writable (i32 7 7 rfl (by decide) (by decide) (by decide))) .nil
  have exports : Section.Spelled (.exports [⟨"f", .func, 0⟩]) [7, 5, 1, 1, 0x66, 0, 0] :=
    .mk (u := [5]) (v := [1, 1, 0x66, 0, 0]) rfl (u32_single rfl rfl) <|
      .mk (u := [1]) (u32_single rfl rfl) <| .cons (u := [1, 0x66, 0, 0])
        (.mk (u := [1, 0x66]) (v := [0]) (.mk (u := [1]) (u32_single rfl rfl)) (u32_single rfl rfl)) .nil
  have body : CodeEntry.SpelledBody ⟨[.i64, .i64], ⟨#[0x41, 0x2A, 0x0B]⟩⟩ [1, 2, 0x7E, 0x41, 0x2A, 0x0B] :=
    @CodeEntry.SpelledBody.mk [(2, .i64)] [1, 2, 0x7E] _ (.mk (u := [1]) (u32_single rfl rfl)
      (.cons (u := [2, 0x7E]) (.mk (u := [2]) (u32_single rfl rfl) rfl) .nil)) (by decide)
  have code : Section.Spelled (.code [⟨[.i64, .i64], ⟨#[0x41, 0x2A, 0x0B]⟩⟩])
      [10, 8, 1, 6, 1, 2, 0x7E, 0x41, 0x2A, 0x0B] :=
    .mk (u := [8]) (v := [1, 6, 1, 2, 0x7E, 0x41, 0x2A, 0x0B]) rfl (u32_single rfl rfl) <|
      .mk (u := [1]) (u32_single rfl rfl) <| .cons (u := [6, 1, 2, 0x7E, 0x41, 0x2A, 0x0B])
        (.mk (u := [6]) (u32_single rfl rfl) body) .nil
  have data : Section.Spelled (.data [⟨.active 0 (.value (.i32 2)), ⟨#[0x41]⟩⟩, ⟨.passive, ⟨#[0x42]⟩⟩])
      [11, 10, 2, 0, 0x41, 2, 0x0B, 1, 0x41, 1, 1, 0x42] :=
    .mk (u := [10]) (v := [2, 0, 0x41, 2, 0x0B, 1, 0x41, 1, 1, 0x42]) rfl (u32_single rfl rfl) <|
      .mk (u := [2]) (u32_single rfl rfl) <| .cons (u := [0, 0x41, 2, 0x0B, 1, 0x41])
        (.mk (u := [0, 0x41, 2, 0x0B]) (.first (u := [0]) (u32_single rfl rfl)
          (i32 2 2 rfl (by decide) (by decide) (by decide))) (.mk (u := [1]) (u32_single rfl rfl))) <|
        .cons (u := [1, 1, 0x42]) (.mk (u := [1]) (.passive (u32_single rfl rfl)) (.mk (u := [1]) (u32_single rfl rfl))) .nil
  exact .mk (.cons types (.cons functions (.cons memories (.cons globals (.cons exports (.cons code (.cons data .nil)))))))

theorem right : (Outline.of sections).WellFormed := by
  intro kind
  cases kind with
  | functions => exact fun index h => by cases h with | head => decide | tail _ h => cases h
  | memories => exact fun limits h => by cases h with | head => nofun | tail _ h => cases h
  | exports => exact fun e h => by cases h with | head => exact .inr (by decide) | tail _ h => cases h
  | globals =>
    intro before e after same
    cases before with
    | nil =>
      cases same
      rfl
    | cons _ before => cases before <;> cases same
  | data =>
    intro d h
    cases h with
    | head => exact ⟨rfl, ⟨1, none⟩, rfl, by decide⟩
    | tail _ h => cases h with | head => trivial | tail _ h => cases h
  | imports => nofun
  | code => rfl
  | _ => trivial

end Sample

/-- The sample is loaded, with its count spelled in two bytes. -/
theorem decode_spelled_sample : ∃ l, Module.decode Sample.bytes {} (Resolver.none (σ := Unit)) = .ok () l ∧
    (l.module.functions.map fun f => (f.name, f.signature, f.locals)) =
      #[(some "f", ⟨[], [.i32]⟩, [.i64, .i64])] ∧
    l.store.globals = #[{ value := .i32 7, isConstant := false }] ∧ l.store.data = #[.empty, ⟨#[0x42]⟩] ∧
    l.store.memories = #[.holding ⟨1, none⟩ none [(2, ⟨#[0x41]⟩)]] := by
  obtain ⟨l, done, loaded⟩ := Module.decode_spelled _ Sample.right Sample.sections (by decide) rfl Sample.bytes
    Sample.spelled (by decide) {} (Resolver.none (σ := Unit))
  refine ⟨l, done, ?_, ?_, ?_, ?_⟩
  · rw [loaded.module]
    decide +kernel
  · rw [loaded.store]
    rfl
  · rw [loaded.store]
    rfl
  · rw [loaded.store]
    rfl

end Wasm
