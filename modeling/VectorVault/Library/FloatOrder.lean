import Mathlib.Data.List.Sort
import Mathlib.Tactic

/-! Values compared the way IEEE floats are.

Comparisons are Boolean, and only the laws that survive a not-a-number are
assumed: `lt` is a strict partial order, `eq` need not be reflexive. A linear
order with a top element is the case without a not-a-number. -/

namespace VectorVault

class FloatOrder (D : Type) where
  lt : D → D → Bool
  le : D → D → Bool
  eq : D → D → Bool
  infinity : D
  lt_irrefl : ∀ value, lt value value = false
  lt_trans : ∀ first second third, lt first second = true → lt second third = true →
    lt first third = true

namespace FloatOrder

instance (priority := low) ofLinearOrder {D : Type} [LinearOrder D] [OrderTop D] :
    FloatOrder D where
  lt first second := decide (first < second)
  le first second := decide (first ≤ second)
  eq first second := decide (first = second)
  infinity := ⊤
  lt_irrefl value := by simp
  lt_trans first second third low high :=
    decide_eq_true ((of_decide_eq_true low).trans (of_decide_eq_true high))

section Linear

variable {D : Type} [LinearOrder D] [OrderTop D]

@[simp] theorem lt_iff (first second : D) : lt first second = true ↔ first < second := by
  simp [lt]

@[simp] theorem lt_eq_false_iff (first second : D) : lt first second = false ↔ second ≤ first := by
  simp [lt]

@[simp] theorem le_iff (first second : D) : le first second = true ↔ first ≤ second := by
  simp [le]

@[simp] theorem eq_iff (first second : D) : eq first second = true ↔ first = second := by
  simp [eq]

end Linear

variable {D : Type} [FloatOrder D]

/-- Comparison of a pair by its float first and its key second, as a pair of
the standard library compares. -/
def pairLt {V : Type} [LT V] [DecidableLT V] (first second : D × V) : Bool :=
  lt first.1 second.1 || (!lt second.1 first.1 && decide (first.2 < second.2))

/-- Comparison by float, ties by key, as a sort predicate tests equality first. -/
def keyedLt {V : Type} [LT V] [DecidableLT V] (first second : D × V) : Bool :=
  if !eq first.1 second.1 then lt first.1 second.1 else decide (first.2 < second.2)

def sortBy {A : Type} (less : A → A → Bool) (items : List A) : List A :=
  items.insertionSort (fun first second => less second first = false)

theorem sortBy_perm {A : Type} (less : A → A → Bool) (items : List A) :
    (sortBy less items).Perm items :=
  List.perm_insertionSort _ items

@[simp] theorem mem_sortBy {A : Type} (less : A → A → Bool) (items : List A) (item : A) :
    item ∈ sortBy less items ↔ item ∈ items :=
  (sortBy_perm less items).mem_iff

@[simp] theorem length_sortBy {A : Type} (less : A → A → Bool) (items : List A) :
    (sortBy less items).length = items.length :=
  (sortBy_perm less items).length_eq

/-- A ranking that the comparisons follow. There is one where no value is a
not-a-number. -/
structure Ranks {E : Type} [LinearOrder E] (rank : D → E) : Prop where
  lt : ∀ first second, FloatOrder.lt first second = true ↔ rank first < rank second
  eq : ∀ first second, FloatOrder.eq first second = true ↔ rank first = rank second

section Ranks

variable {E V : Type} [LinearOrder E] [LinearOrder V] {rank : D → E}

theorem keyedLt_iff_of {first second : D × V}
    (less : FloatOrder.lt first.1 second.1 = true ↔ rank first.1 < rank second.1)
    (equal : FloatOrder.eq first.1 second.1 = true ↔ rank first.1 = rank second.1) :
    keyedLt first second = true ↔
      toLex (rank first.1, first.2) < toLex (rank second.1, second.2) := by
  simp only [keyedLt, Bool.not_eq_true', Prod.Lex.toLex_lt_toLex]
  by_cases same : rank first.1 = rank second.1
  · simp [equal.mpr same, same]
  · have unequal : FloatOrder.eq first.1 second.1 = false := by
      rw [Bool.eq_false_iff, ne_eq, equal]
      exact same
    simp [unequal, same, less]

theorem Ranks.keyedLt_iff (ranks : Ranks rank) (first second : D × V) :
    keyedLt first second = true ↔
      toLex (rank first.1, first.2) < toLex (rank second.1, second.2) :=
  keyedLt_iff_of (ranks.lt first.1 second.1) (ranks.eq first.1 second.1)

end Ranks

section LinearPairs

variable {D V : Type} [LinearOrder D] [OrderTop D] [LinearOrder V]

theorem pairLt_iff (first second : D × V) :
    pairLt first second = true ↔ toLex first < toLex second := by
  simp only [pairLt, Bool.or_eq_true, lt_iff, Bool.and_eq_true, Bool.not_eq_true', lt_eq_false_iff,
    decide_eq_true_eq, Prod.Lex.toLex_lt_toLex]
  constructor
  · rintro (less | ⟨atMost, keys⟩)
    · exact Or.inl less
    · exact atMost.lt_or_eq.imp_right (fun same => ⟨same, keys⟩)
  · rintro (less | ⟨same, keys⟩)
    · exact Or.inl less
    · exact Or.inr ⟨same.le, keys⟩

theorem ranks_id : Ranks (id : D → D) := ⟨lt_iff, eq_iff⟩

theorem keyedLt_iff (first second : D × V) :
    keyedLt first second = true ↔ toLex first < toLex second :=
  ranks_id.keyedLt_iff first second

end LinearPairs

theorem sortBy_pairwise {A B : Type} [LinearOrder B] (less : A → A → Bool) (rank : A → B)
    (ranked : ∀ first second, less first second = true ↔ rank first < rank second)
    (items : List A) :
    (sortBy less items).Pairwise (fun first second => rank first ≤ rank second) := by
  have atMost : ∀ first second, less second first = false ↔ rank first ≤ rank second := by
    intro first second
    rw [Bool.eq_false_iff, ne_eq, ranked, not_lt]
  have total : Std.Total (fun first second => less second first = false) :=
    ⟨fun first second => by simp only [atMost]; exact le_total _ _⟩
  have transitive : IsTrans A (fun first second => less second first = false) :=
    ⟨fun first second third low high => by
      simp only [atMost] at low high ⊢
      exact low.trans high⟩
  exact (List.pairwise_insertionSort (fun first second => less second first = false) items).imp
    (fun holds => (atMost _ _).mp holds)

section Ranks

variable {E V : Type} [LinearOrder E] [LinearOrder V] {rank : D → E}

theorem Ranks.head_least (ranks : Ranks rank) {items rest : List (D × V)} {least : D × V}
    (sorted : sortBy keyedLt items = least :: rest) :
    ∀ other ∈ items, rank least.1 ≤ rank other.1 := by
  intro other member
  have ascending := sortBy_pairwise keyedLt (fun item : D × V => toLex (rank item.1, item.2))
    ranks.keyedLt_iff items
  rw [← mem_sortBy keyedLt, sorted] at member
  rw [sorted] at ascending
  rcases List.mem_cons.mp member with same | later
  · rw [same]
  · have atMost := (List.pairwise_cons.mp ascending).1 other later
    rcases Prod.Lex.toLex_le_toLex.mp atMost with less | ⟨same, _⟩
    · exact less.le
    · exact same.le

end Ranks

theorem sortBy_eq_of_perm {A B : Type} [LinearOrder B] (less : A → A → Bool) (rank : A → B)
    (ranked : ∀ first second, less first second = true ↔ rank first < rank second)
    (injective : Function.Injective rank) {first second : List A} (permuted : first.Perm second) :
    sortBy less first = sortBy less second := by
  have antisymm : ∀ one other : A, one ∈ sortBy less first → other ∈ sortBy less second →
      rank one ≤ rank other → rank other ≤ rank one → one = other := by
    intro one other _ _ low high
    exact injective (le_antisymm low high)
  exact List.Perm.eq_of_pairwise antisymm (sortBy_pairwise less rank ranked first)
    (sortBy_pairwise less rank ranked second)
    ((sortBy_perm _ _).trans (permuted.trans (sortBy_perm _ _).symm))

theorem ahead_of_sublist {A B : Type} [LinearOrder B] (rank : A → B) {few many : List A}
    (sub : few.Sublist many)
    (ascending : many.Pairwise (fun first second => rank first ≤ rank second)) :
    ∀ i (short : i < few.length) (long : i < many.length), rank many[i] ≤ rank few[i] := by
  induction sub with
  | slnil =>
      intro i short
      exact absurd short (Nat.not_lt_zero i)
  | @cons few many extra sub ih =>
      rcases List.pairwise_cons.mp ascending with ⟨least, later⟩
      intro i short long
      have inside : i < many.length := lt_of_lt_of_le short sub.length_le
      have next : rank many[i] ≤ rank few[i] := ih later i short inside
      rcases i with _ | i
      · exact (least _ (List.getElem_mem inside)).trans next
      · have step : rank many[i] ≤ rank many[i + 1] :=
          List.pairwise_iff_getElem.mp later i (i + 1) (by omega) inside (Nat.lt_succ_self i)
        exact step.trans next
  | @cons_cons few many head sub ih =>
      intro i short long
      rcases i with _ | i
      · exact le_rfl
      · exact ih (List.pairwise_cons.mp ascending).2 i (Nat.lt_of_succ_lt_succ short)
          (Nat.lt_of_succ_lt_succ long)

theorem sortBy_take_ahead {A B : Type} [LinearOrder B] (less : A → A → Bool) (rank : A → B)
    (ranked : ∀ first second, less first second = true ↔ rank first < rank second)
    (injective : Function.Injective rank) {few many : List A} (sub : few.Subperm many)
    (limit : Nat) :
    ((sortBy less few).take limit).length ≤ ((sortBy less many).take limit).length ∧
      ∀ i (short : i < ((sortBy less few).take limit).length)
        (long : i < ((sortBy less many).take limit).length),
        rank ((sortBy less many).take limit)[i] ≤ rank ((sortBy less few).take limit)[i] := by
  have antisymm : Std.Antisymm (fun first second : A => rank first ≤ rank second) :=
    ⟨fun _ _ low high => injective (le_antisymm low high)⟩
  have ascending := sortBy_pairwise less rank ranked many
  have within : (sortBy less few).Sublist (sortBy less many) := by
    apply List.sublist_of_subperm_of_pairwise _ (sortBy_pairwise less rank ranked few) ascending
    exact (sortBy_perm less few).subperm.trans (sub.trans (sortBy_perm less many).symm.subperm)
  have lengths := within.length_le
  constructor
  · rw [List.length_take, List.length_take]
    omega
  · intro i short long
    rw [List.getElem_take, List.getElem_take]
    exact ahead_of_sublist rank within ascending i _ _

theorem sortBy_take_first {A B : Type} [LinearOrder B] (less : A → A → Bool) (rank : A → B)
    (ranked : ∀ first second, less first second = true ↔ rank first < rank second)
    (injective : Function.Injective rank) {items kept rest : List A}
    (parts : items.Perm (kept ++ rest))
    (before : ∀ one ∈ kept, ∀ other ∈ rest, rank one ≤ rank other) {limit : Nat}
    (full : rest ≠ [] → limit ≤ kept.length) :
    (sortBy less items).take limit = (sortBy less kept).take limit := by
  have antisymm : ∀ one other : A, one ∈ sortBy less items →
      other ∈ sortBy less kept ++ sortBy less rest →
      rank one ≤ rank other → rank other ≤ rank one → one = other := by
    intro one other _ _ low high
    exact injective (le_antisymm low high)
  have ascending : (sortBy less kept ++ sortBy less rest).Pairwise
      (fun first second => rank first ≤ rank second) := by
    apply List.pairwise_append.mpr
    refine ⟨sortBy_pairwise less rank ranked kept, sortBy_pairwise less rank ranked rest, ?_⟩
    intro one inKept other inRest
    exact before one ((mem_sortBy less kept one).mp inKept) other
      ((mem_sortBy less rest other).mp inRest)
  have split_ : sortBy less items = sortBy less kept ++ sortBy less rest :=
    List.Perm.eq_of_pairwise antisymm (sortBy_pairwise less rank ranked items) ascending
      ((sortBy_perm less items).trans (parts.trans
        ((sortBy_perm less kept).append (sortBy_perm less rest)).symm))
  rw [split_]
  by_cases none : rest = []
  · rw [none]
    simp only [sortBy, List.insertionSort_nil, List.append_nil]
  · exact List.take_append_of_le_length (by rw [length_sortBy]; exact full none)

/-- What a sort asks of its comparison, on the items it is given. -/
structure StrictWeak {A : Type} (less : A → A → Bool) (items : List A) : Prop where
  irrefl : ∀ item ∈ items, less item item = false
  trans : ∀ first ∈ items, ∀ second ∈ items, ∀ third ∈ items, less first second = true →
    less second third = true → less first third = true
  incomparable : ∀ first ∈ items, ∀ second ∈ items, ∀ third ∈ items,
    less first second = false → less second first = false →
    less second third = false → less third second = false →
    less first third = false ∧ less third first = false

theorem strictWeak_of_rank {A B : Type} [LinearOrder B] {less : A → A → Bool} {items : List A}
    (rank : A → B) (ranked : ∀ first ∈ items, ∀ second ∈ items,
      less first second = true ↔ rank first < rank second) : StrictWeak less items := by
  have atMost : ∀ first ∈ items, ∀ second ∈ items,
      less first second = false ↔ rank second ≤ rank first := by
    intro first inFirst second inSecond
    rw [Bool.eq_false_iff, ne_eq, ranked first inFirst second inSecond, not_lt]
  constructor
  · intro item member
    exact (atMost item member item member).mpr le_rfl
  · intro first inFirst second inSecond third inThird low high
    rw [ranked _ inFirst _ inSecond] at low
    rw [ranked _ inSecond _ inThird] at high
    exact (ranked _ inFirst _ inThird).mpr (low.trans high)
  · intro first inFirst second inSecond third inThird one two three four
    rw [atMost _ inFirst _ inSecond] at one
    rw [atMost _ inSecond _ inFirst] at two
    rw [atMost _ inSecond _ inThird] at three
    rw [atMost _ inThird _ inSecond] at four
    exact ⟨(atMost _ inFirst _ inThird).mpr (three.trans one),
      (atMost _ inThird _ inFirst).mpr (two.trans four)⟩

end FloatOrder

end VectorVault
