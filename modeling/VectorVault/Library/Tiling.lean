import Mathlib.Data.List.Sort
import Mathlib.Tactic

/-! Two span tables that tile an interval.

A table maps the offset of a span to its length. The free and the live table
tile `[0, capacity)` when their spans are non-empty, pairwise apart and cover
exactly that interval. Carving a span, giving one back and joining two adjacent
free spans keep the tiling; the last restores that no two free spans touch. -/

namespace VectorVault

abbrev SpanTable := Nat → Option Nat

namespace Tiling

def Covers (table : SpanTable) (point : Nat) : Prop :=
  ∃ offset length, table offset = some length ∧ offset ≤ point ∧ point < offset + length

/-- Distinct spans of one table are in offset order without overlap. -/
def Apart (table : SpanTable) : Prop :=
  ∀ offset length other size, table offset = some length → table other = some size →
    offset < other → offset + length ≤ other

theorem Apart.disjoint {table : SpanTable} (apart : Apart table) {offset length other size : Nat}
    (first : table offset = some length) (second : table other = some size)
    (different : other ≠ offset) : offset + length ≤ other ∨ other + size ≤ offset := by
  rcases Nat.lt_or_gt_of_ne different with before | after
  · exact Or.inr (apart other size offset length second first before)
  · exact Or.inl (apart offset length other size first second after)

def Positive (table : SpanTable) : Prop :=
  ∀ offset length, table offset = some length → 0 < length

def Aligned (unit : Nat) (table : SpanTable) : Prop :=
  ∀ offset length, table offset = some length → unit ∣ offset ∧ unit ∣ length

def Coalesced (table : SpanTable) : Prop :=
  ∀ offset length, table offset = some length → table (offset + length) = none

def put (table : SpanTable) (offset length : Nat) : SpanTable :=
  fun other => if other = offset then some length else table other

def drop (table : SpanTable) (offset : Nat) : SpanTable :=
  fun other => if other = offset then none else table other

theorem put_eq_some (table : SpanTable) (offset length other size : Nat) :
    put table offset length other = some size ↔
      other = offset ∧ length = size ∨ other ≠ offset ∧ table other = some size := by
  by_cases same : other = offset <;> simp [put, same]

theorem drop_eq_some (table : SpanTable) (offset other size : Nat) :
    drop table offset other = some size ↔ other ≠ offset ∧ table other = some size := by
  by_cases same : other = offset <;> simp [drop, same]

end Tiling

open Tiling

structure Tiling (capacity : Nat) (free live : SpanTable) : Prop where
  freePositive : Positive free
  livePositive : Positive live
  freeApart : Apart free
  liveApart : Apart live
  crossApart : ∀ offset length other size, free offset = some length → live other = some size →
    offset + length ≤ other ∨ other + size ≤ offset
  covered : ∀ point, point < capacity ↔ Covers free point ∨ Covers live point

namespace Tiling

variable {capacity : Nat} {free live : SpanTable}

theorem free_below (tiling : Tiling capacity free live) {offset length : Nat}
    (span : free offset = some length) : offset + length ≤ capacity := by
  have positive := tiling.freePositive offset length span
  have last := (tiling.covered (offset + length - 1)).mpr
    (Or.inl ⟨offset, length, span, by omega, by omega⟩)
  omega

theorem live_below (tiling : Tiling capacity free live) {offset length : Nat}
    (span : live offset = some length) : offset + length ≤ capacity := by
  have positive := tiling.livePositive offset length span
  have last := (tiling.covered (offset + length - 1)).mpr
    (Or.inr ⟨offset, length, span, by omega, by omega⟩)
  omega

theorem free_not_live (tiling : Tiling capacity free live) {offset length : Nat}
    (span : free offset = some length) : live offset = none := by
  cases held : live offset with
  | none => rfl
  | some size =>
      have first := tiling.freePositive offset length span
      have second := tiling.livePositive offset size held
      have apart := tiling.crossApart offset length offset size span held
      omega

theorem live_not_free (tiling : Tiling capacity free live) {offset length : Nat}
    (span : live offset = some length) : free offset = none := by
  cases held : free offset with
  | none => rfl
  | some size => rw [tiling.free_not_live held] at span; cases span

theorem live_unique (tiling : Tiling capacity free live) {offset length other size point : Nat}
    (first : live offset = some length) (second : live other = some size)
    (low : offset ≤ point) (high : point < offset + length)
    (otherLow : other ≤ point) (otherHigh : point < other + size) : offset = other := by
  by_contra different
  have apart := tiling.liveApart.disjoint first second (Ne.symm different)
  omega

theorem start (capacity : Nat) (positive : 0 < capacity) :
    Tiling capacity (put (fun _ => none) 0 capacity) (fun _ => none) where
  freePositive := by
    intro offset length span
    rw [put_eq_some] at span
    simp only [reduceCtorEq, and_false, or_false] at span
    omega
  livePositive := by intro offset length span; cases span
  freeApart := by
    intro offset length other size first second less
    rw [put_eq_some] at first second
    simp only [reduceCtorEq, and_false, or_false] at first second
    omega
  liveApart := by intro offset length other size first; cases first
  crossApart := by intro offset length other size _ second; cases second
  covered := by
    intro point
    constructor
    · intro below
      exact Or.inl ⟨0, capacity, by simp [put], by omega, by omega⟩
    · intro covered
      rcases covered with ⟨offset, length, span, low, high⟩ | ⟨offset, length, span, _⟩
      · rw [put_eq_some] at span
        simp only [reduceCtorEq, and_false, or_false] at span
        omega
      · cases span

theorem empty : Tiling 0 (fun _ => none) (fun _ => none) where
  freePositive := by intro offset length span; cases span
  livePositive := by intro offset length span; cases span
  freeApart := by intro offset length other size first; cases first
  liveApart := by intro offset length other size first; cases first
  crossApart := by intro offset length other size first; cases first
  covered := by
    intro point
    constructor
    · intro below; omega
    · intro covered
      rcases covered with ⟨offset, length, span, _⟩ | ⟨offset, length, span, _⟩ <;> cases span

theorem covers_free_iff (tiling : Tiling capacity free live) (point : Nat) :
    Covers free point ↔ point < capacity ∧ ¬ Covers live point := by
  constructor
  · intro inFree
    refine ⟨(tiling.covered point).mpr (Or.inl inFree), ?_⟩
    intro inLive
    obtain ⟨offset, length, span, low, high⟩ := inFree
    obtain ⟨other, size, held, otherLow, otherHigh⟩ := inLive
    have apart := tiling.crossApart offset length other size span held
    omega
  · intro outside
    exact ((tiling.covered point).mp outside.1).resolve_right outside.2

/-- A maximal interval that the live spans leave in `[0, capacity)`. -/
structure Gap (capacity : Nat) (live : SpanTable) (offset length : Nat) : Prop where
  positive : 0 < length
  inside : offset + length ≤ capacity
  clear : ∀ point, offset ≤ point → point < offset + length → ¬ Covers live point
  bounded : ∀ point, point + 1 = offset → Covers live point
  ended : offset + length < capacity → Covers live (offset + length)

theorem gap_of_free (tiling : Tiling capacity free live) (coalesced : Coalesced free)
    {offset length : Nat} (span : free offset = some length) : Gap capacity live offset length := by
  have positive := tiling.freePositive offset length span
  have below := tiling.free_below span
  refine ⟨positive, below, ?_, ?_, ?_⟩
  · intro point low high
    exact ((tiling.covers_free_iff point).mp ⟨offset, length, span, low, high⟩).2
  · intro point next
    apply ((tiling.covered point).mp (by omega)).resolve_left
    intro free
    obtain ⟨start, size, held, low, high⟩ := free
    have apart := tiling.freeApart start size offset length held span (by omega)
    have touch := coalesced start size held
    rw [show start + size = offset by omega, span] at touch
    cases touch
  · intro more
    apply ((tiling.covered _).mp more).resolve_left
    intro free
    obtain ⟨start, size, held, low, high⟩ := free
    by_cases same : start = offset
    · rw [same, span, Option.some.injEq] at held
      omega
    · have apart := tiling.freeApart.disjoint span held same
      have touch := coalesced offset length span
      rw [show offset + length = start by omega, held] at touch
      cases touch

theorem Gap.unique {offset length other size point : Nat} (gap : Gap capacity live offset length)
    (gap' : Gap capacity live other size) (low : offset ≤ point) (high : point < offset + length)
    (low' : other ≤ point) (high' : point < other + size) : other = offset ∧ size = length := by
  have start : other = offset := by
    rcases lt_trichotomy other offset with before | same | after
    · exact absurd (gap.bounded (offset - 1) (by omega)) (gap'.clear _ (by omega) (by omega))
    · exact same
    · exact absurd (gap'.bounded (other - 1) (by omega)) (gap.clear _ (by omega) (by omega))
  have inside := gap.inside
  have inside' := gap'.inside
  refine ⟨start, ?_⟩
  rcases lt_trichotomy size length with shorter | same | longer
  · exact absurd (gap'.ended (by omega)) (gap.clear _ (by omega) (by omega))
  · exact same
  · exact absurd (gap.ended (by omega)) (gap'.clear _ (by omega) (by omega))

theorem free_iff_gap (tiling : Tiling capacity free live) (coalesced : Coalesced free)
    (offset length : Nat) : free offset = some length ↔ Gap capacity live offset length := by
  constructor
  · exact tiling.gap_of_free coalesced
  · intro gap
    have positive := gap.positive
    have inside := gap.inside
    obtain ⟨other, size, span, low, high⟩ := (tiling.covers_free_iff offset).mpr
      ⟨by omega, gap.clear offset (Nat.le_refl offset) (by omega)⟩
    have same := gap.unique (tiling.gap_of_free coalesced span) (Nat.le_refl offset) (by omega)
      low high
    rw [← same.1, ← same.2]
    exact span

theorem free_agrees {free' : SpanTable} (tiling : Tiling capacity free live)
    (tiling' : Tiling capacity free' live) (coalesced : Coalesced free)
    (coalesced' : Coalesced free') {offset length : Nat} (span : free offset = some length) :
    free' offset = some length :=
  (tiling'.free_iff_gap coalesced' offset length).mpr (tiling.gap_of_free coalesced span)

theorem free_unique {free' : SpanTable} (tiling : Tiling capacity free live)
    (tiling' : Tiling capacity free' live) (coalesced : Coalesced free)
    (coalesced' : Coalesced free') : free = free' := by
  funext offset
  cases span : free offset with
  | some length => exact (tiling.free_agrees tiling' coalesced coalesced' span).symm
  | none =>
      cases span' : free' offset with
      | none => rfl
      | some length =>
          rw [tiling'.free_agrees tiling coalesced' coalesced span'] at span
          cases span

/-- The free table after its span at `offset` lost its first `needed` bytes. -/
def carved (free : SpanTable) (offset length needed : Nat) : SpanTable :=
  if length > needed then put (drop free offset) (offset + needed) (length - needed)
  else drop free offset

theorem carved_eq_some (offset length needed other size : Nat) :
    carved free offset length needed other = some size ↔
      other = offset + needed ∧ length - needed = size ∧ needed < length ∨
        other ≠ offset ∧ (needed < length → other ≠ offset + needed) ∧
          free other = some size := by
  by_cases rest : length > needed
  · simp only [carved, if_pos rest, put_eq_some, drop_eq_some]
    constructor
    · intro holds
      rcases holds with ⟨at_, size⟩ | ⟨other, first, span⟩
      · exact Or.inl ⟨at_, size, rest⟩
      · exact Or.inr ⟨first, fun _ => other, span⟩
    · intro holds
      rcases holds with ⟨at_, size, _⟩ | ⟨first, other, span⟩
      · exact Or.inl ⟨at_, size⟩
      · exact Or.inr ⟨other rest, first, span⟩
  · simp only [carved, if_neg rest, drop_eq_some]
    constructor
    · intro holds
      exact Or.inr ⟨holds.1, fun less => absurd less rest, holds.2⟩
    · intro holds
      rcases holds with ⟨_, _, less⟩ | ⟨first, _, span⟩
      · exact absurd less rest
      · exact ⟨first, span⟩

theorem carve (tiling : Tiling capacity free live) {offset length needed : Nat}
    (span : free offset = some length) (fits : needed ≤ length) (positive : 0 < needed) :
    Tiling capacity (carved free offset length needed) (put live offset needed) where
  freePositive := by
    intro other size held
    rw [carved_eq_some offset length needed other size] at held
    rcases held with ⟨_, same, less⟩ | ⟨_, _, held⟩
    · omega
    · exact tiling.freePositive other size held
  livePositive := by
    intro other size held
    rw [put_eq_some] at held
    rcases held with ⟨_, rfl⟩ | ⟨_, held⟩
    · exact positive
    · exact tiling.livePositive other size held
  freeApart := by
    intro first length₁ second length₂ heldFirst heldSecond less
    rw [carved_eq_some offset length needed] at heldFirst heldSecond
    rcases heldFirst with ⟨_, _, _⟩ | ⟨elsewhere, _, heldFirst⟩ <;>
      rcases heldSecond with ⟨_, _, _⟩ | ⟨_, _, heldSecond⟩
    · omega
    · have apart := tiling.freeApart offset length second length₂ span heldSecond (by omega)
      omega
    · have apart := tiling.freeApart.disjoint span heldFirst elsewhere
      omega
    · exact tiling.freeApart first length₁ second length₂ heldFirst heldSecond less
  liveApart := by
    intro first length₁ second length₂ heldFirst heldSecond less
    rw [put_eq_some] at heldFirst heldSecond
    rcases heldFirst with ⟨_, _⟩ | ⟨_, heldFirst⟩ <;>
      rcases heldSecond with ⟨_, _⟩ | ⟨_, heldSecond⟩
    · omega
    · have apart := tiling.crossApart offset length second length₂ span heldSecond
      have size := tiling.livePositive second length₂ heldSecond
      omega
    · have apart := tiling.crossApart offset length first length₁ span heldFirst
      omega
    · exact tiling.liveApart first length₁ second length₂ heldFirst heldSecond less
  crossApart := by
    intro first length₁ second length₂ heldFree heldLive
    rw [carved_eq_some offset length needed] at heldFree
    rw [put_eq_some] at heldLive
    rcases heldFree with ⟨_, _, _⟩ | ⟨elsewhere, _, heldFree⟩ <;>
      rcases heldLive with ⟨_, _⟩ | ⟨_, heldLive⟩
    · omega
    · have apart := tiling.crossApart offset length second length₂ span heldLive
      omega
    · have apart := tiling.freeApart.disjoint span heldFree elsewhere
      omega
    · exact tiling.crossApart first length₁ second length₂ heldFree heldLive
  covered := by
    intro point
    rw [tiling.covered point]
    constructor
    · intro covered
      rcases covered with ⟨first, size, held, low, high⟩ | ⟨first, size, held, low, high⟩
      · by_cases same : first = offset
        · subst same
          rw [span] at held
          cases held
          by_cases inside : point < first + needed
          · exact Or.inr ⟨first, needed, by simp [put], low, inside⟩
          · refine Or.inl ⟨first + needed, length - needed, ?_, by omega, by omega⟩
            rw [carved_eq_some first length needed]
            exact Or.inl ⟨rfl, rfl, by omega⟩
        · refine Or.inl ⟨first, size, ?_, low, high⟩
          rw [carved_eq_some offset length needed]
          refine Or.inr ⟨same, ?_, held⟩
          intro rest collide
          have apart := tiling.freeApart.disjoint span held same
          omega
      · refine Or.inr ⟨first, size, ?_, low, high⟩
        rw [put_eq_some]
        refine Or.inr ⟨?_, held⟩
        intro same
        rw [same, tiling.free_not_live span] at held
        cases held
    · intro covered
      rcases covered with ⟨first, size, held, low, high⟩ | ⟨first, size, held, low, high⟩
      · rw [carved_eq_some offset length needed] at held
        rcases held with ⟨_, _, _⟩ | ⟨_, _, held⟩
        · exact Or.inl ⟨offset, length, span, by omega, by omega⟩
        · exact Or.inl ⟨first, size, held, low, high⟩
      · rw [put_eq_some] at held
        rcases held with ⟨_, _⟩ | ⟨_, held⟩
        · exact Or.inl ⟨offset, length, span, by omega, by omega⟩
        · exact Or.inr ⟨first, size, held, low, high⟩

theorem carved_coalesced (tiling : Tiling capacity free live) (coalesced : Coalesced free)
    {offset length needed : Nat} (span : free offset = some length) (positive : 0 < needed) :
    Coalesced (carved free offset length needed) := by
  intro first size held
  rw [carved_eq_some] at held
  apply Option.eq_none_iff_forall_ne_some.mpr
  intro following other
  rw [carved_eq_some] at other
  rcases held with ⟨_, _, _⟩ | ⟨elsewhere, _, held⟩ <;> rcases other with ⟨_, _, _⟩ | ⟨_, _, other⟩
  · omega
  · have gap := coalesced offset length span
    rw [show first + size = offset + length by omega, gap] at other
    cases other
  · have gap := coalesced first size held
    have apart := tiling.freeApart.disjoint span held elsewhere
    omega
  · rw [coalesced first size held] at other
    cases other

theorem carved_aligned {unit : Nat} {table : SpanTable} {offset length needed : Nat}
    (aligned : Aligned unit table) (span : table offset = some length) (whole : unit ∣ needed) :
    Aligned unit (carved table offset length needed) := by
  intro other size held
  rw [carved_eq_some] at held
  rcases held with ⟨rfl, rfl, _⟩ | ⟨_, _, held⟩
  · exact ⟨Nat.dvd_add (aligned _ _ span).1 whole, Nat.dvd_sub (aligned _ _ span).2 whole⟩
  · exact aligned other size held

theorem give (tiling : Tiling capacity free live) {offset length : Nat}
    (span : live offset = some length) :
    Tiling capacity (put free offset length) (drop live offset) where
  freePositive := by
    intro other size held
    rw [put_eq_some] at held
    rcases held with ⟨_, rfl⟩ | ⟨_, held⟩
    · exact tiling.livePositive offset length span
    · exact tiling.freePositive other size held
  livePositive := by
    intro other size held
    rw [drop_eq_some] at held
    exact tiling.livePositive other size held.2
  freeApart := by
    intro first length₁ second length₂ heldFirst heldSecond less
    rw [put_eq_some] at heldFirst heldSecond
    rcases heldFirst with ⟨_, _⟩ | ⟨_, heldFirst⟩ <;>
      rcases heldSecond with ⟨_, _⟩ | ⟨_, heldSecond⟩
    · omega
    · have apart := tiling.crossApart second length₂ offset length heldSecond span
      have size := tiling.freePositive second length₂ heldSecond
      omega
    · have apart := tiling.crossApart first length₁ offset length heldFirst span
      have size := tiling.livePositive offset length span
      omega
    · exact tiling.freeApart first length₁ second length₂ heldFirst heldSecond less
  liveApart := by
    intro first length₁ second length₂ heldFirst heldSecond less
    rw [drop_eq_some] at heldFirst heldSecond
    exact tiling.liveApart first length₁ second length₂ heldFirst.2 heldSecond.2 less
  crossApart := by
    intro first length₁ second length₂ heldFree heldLive
    rw [put_eq_some] at heldFree
    rw [drop_eq_some] at heldLive
    rcases heldFree with ⟨_, _⟩ | ⟨_, heldFree⟩
    · have apart := tiling.liveApart.disjoint span heldLive.2 heldLive.1
      omega
    · exact tiling.crossApart first length₁ second length₂ heldFree heldLive.2
  covered := by
    intro point
    rw [tiling.covered point]
    constructor
    · intro covered
      rcases covered with ⟨first, size, held, low, high⟩ | ⟨first, size, held, low, high⟩
      · refine Or.inl ⟨first, size, ?_, low, high⟩
        rw [put_eq_some]
        refine Or.inr ⟨?_, held⟩
        intro same
        rw [same, tiling.live_not_free span] at held
        cases held
      · by_cases same : first = offset
        · subst same
          rw [span] at held
          cases held
          exact Or.inl ⟨first, length, by simp [put], low, high⟩
        · exact Or.inr ⟨first, size, (drop_eq_some _ _ _ _).mpr ⟨same, held⟩, low, high⟩
    · intro covered
      rcases covered with ⟨first, size, held, low, high⟩ | ⟨first, size, held, low, high⟩
      · rw [put_eq_some] at held
        rcases held with ⟨rfl, rfl⟩ | ⟨_, held⟩
        · exact Or.inr ⟨first, length, span, low, high⟩
        · exact Or.inl ⟨first, size, held, low, high⟩
      · exact Or.inr ⟨first, size, ((drop_eq_some _ _ _ _).mp held).2, low, high⟩

def joined (free : SpanTable) (offset length next : Nat) : SpanTable :=
  put (drop free (offset + length)) offset (length + next)

theorem joined_eq_some (offset length next other size : Nat) :
    joined free offset length next other = some size ↔
      other = offset ∧ length + next = size ∨
        other ≠ offset ∧ other ≠ offset + length ∧ free other = some size := by
  rw [joined, put_eq_some, drop_eq_some]

theorem joined_aligned {unit : Nat} {table : SpanTable} {offset length next : Nat}
    (aligned : Aligned unit table) (span : table offset = some length)
    (following : table (offset + length) = some next) :
    Aligned unit (joined table offset length next) := by
  intro other size held
  rw [joined_eq_some] at held
  rcases held with ⟨rfl, rfl⟩ | ⟨_, _, held⟩
  · exact ⟨(aligned _ _ span).1, Nat.dvd_add (aligned _ _ span).2 (aligned _ _ following).2⟩
  · exact aligned other size held

theorem join (tiling : Tiling capacity free live) {offset length next : Nat}
    (span : free offset = some length) (following : free (offset + length) = some next) :
    Tiling capacity (joined free offset length next) live where
  freePositive := by
    intro other size held
    rw [joined_eq_some] at held
    rcases held with ⟨_, _⟩ | ⟨_, _, held⟩
    · have positive := tiling.freePositive offset length span
      omega
    · exact tiling.freePositive other size held
  livePositive := tiling.livePositive
  freeApart := by
    intro first length₁ second length₂ heldFirst heldSecond less
    have positive := tiling.freePositive offset length span
    rw [joined_eq_some] at heldFirst heldSecond
    rcases heldFirst with ⟨_, _⟩ | ⟨_, _, heldFirst⟩ <;>
      rcases heldSecond with ⟨_, _⟩ | ⟨_, _, heldSecond⟩
    · omega
    · have near := tiling.freeApart offset length second length₂ span heldSecond (by omega)
      have far := tiling.freeApart (offset + length) next second length₂ following heldSecond
        (by omega)
      omega
    · have apart := tiling.freeApart first length₁ offset length heldFirst span (by omega)
      omega
    · exact tiling.freeApart first length₁ second length₂ heldFirst heldSecond less
  liveApart := tiling.liveApart
  crossApart := by
    intro first length₁ second length₂ heldFree heldLive
    rw [joined_eq_some] at heldFree
    rcases heldFree with ⟨_, _⟩ | ⟨_, _, heldFree⟩
    · have near := tiling.crossApart offset length second length₂ span heldLive
      have far := tiling.crossApart (offset + length) next second length₂ following heldLive
      have positive := tiling.livePositive second length₂ heldLive
      omega
    · exact tiling.crossApart first length₁ second length₂ heldFree heldLive
  covered := by
    intro point
    rw [tiling.covered point]
    have same : Covers (joined free offset length next) point ↔ Covers free point := by
      constructor
      · intro covered
        obtain ⟨first, size, held, low, high⟩ := covered
        rw [joined_eq_some] at held
        rcases held with ⟨_, _⟩ | ⟨_, _, held⟩
        · by_cases inside : point < offset + length
          · exact ⟨offset, length, span, by omega, inside⟩
          · exact ⟨offset + length, next, following, by omega, by omega⟩
        · exact ⟨first, size, held, low, high⟩
      · intro covered
        obtain ⟨first, size, held, low, high⟩ := covered
        by_cases atFirst : first = offset
        · subst atFirst
          rw [span] at held
          cases held
          exact ⟨first, length + next, by simp [joined, put], low, by omega⟩
        · by_cases atSecond : first = offset + length
          · subst atSecond
            rw [following] at held
            cases held
            exact ⟨offset, length + next, by simp [joined, put], by omega, by omega⟩
          · exact ⟨first, size, (joined_eq_some _ _ _ _ _).mpr (Or.inr ⟨atFirst, atSecond, held⟩),
              low, high⟩
    rw [same]

theorem sum_le {spans : List (Nat × Nat)} {low high : Nat}
    (ordered : spans.Pairwise (fun first second => first.1 + first.2 ≤ second.1))
    (above : ∀ span ∈ spans, low ≤ span.1) (below : ∀ span ∈ spans, span.1 + span.2 ≤ high)
    (bounds : low ≤ high) : low + (spans.map Prod.snd).sum ≤ high := by
  induction spans generalizing low with
  | nil => simpa using bounds
  | cons head tail ih =>
      have after := (List.pairwise_cons.mp ordered).1
      have first := above head (List.mem_cons_self)
      have last := below head (List.mem_cons_self)
      have rest := @ih (head.1 + head.2) (List.pairwise_cons.mp ordered).2 after
        (fun span member => below span (List.mem_cons_of_mem _ member)) last
      simp only [List.map_cons, List.sum_cons]
      omega

end Tiling

end VectorVault
