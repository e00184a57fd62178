import VectorVault.Library.Tiling

/-! Tilings whose live spans all have one length.

When the live spans have length `unit` and start at its multiples, nothing is lost
between them: the free spans hold as many more of them as are not live. -/

namespace VectorVault.Tiling

structure Lists (spans : List (Nat × Nat)) (table : SpanTable) : Prop where
  mem : ∀ offset length, (offset, length) ∈ spans ↔ table offset = some length
  sorted : spans.Pairwise (fun first second => first.1 < second.1)

def Inside (point : Nat) (span : Nat × Nat) : Prop := span.1 ≤ point ∧ point < span.1 + span.2

instance (point : Nat) (span : Nat × Nat) : Decidable (Inside point span) :=
  inferInstanceAs (Decidable (_ ∧ _))

section Volume

variable {capacity : Nat} {table free live : SpanTable} {spans freeSpans liveSpans : List (Nat × Nat)}

theorem Lists.covers (lists : Lists spans table) (point : Nat) :
    Covers table point ↔ ∃ span ∈ spans, Inside point span := by
  constructor
  · intro covered
    rcases covered with ⟨offset, length, held, low, high⟩
    exact ⟨(offset, length), (lists.mem offset length).mpr held, low, high⟩
  · intro covered
    rcases covered with ⟨span, member, low, high⟩
    exact ⟨span.1, span.2, (lists.mem span.1 span.2).mp member, low, high⟩

theorem Lists.ordered (lists : Lists spans table) (apart : Apart table) :
    spans.Pairwise (fun first second => first.1 + first.2 ≤ second.1) := by
  apply lists.sorted.imp_of_mem
  intro first second memberFirst memberSecond less
  exact apart first.1 first.2 second.1 second.2 ((lists.mem _ _).mp memberFirst)
    ((lists.mem _ _).mp memberSecond) less

theorem card_inside {span : Nat × Nat} (below : span.1 + span.2 ≤ capacity) :
    ((Finset.range capacity).filter (fun point => Inside point span)).card = span.2 := by
  have interval : (Finset.range capacity).filter (fun point => Inside point span) =
      Finset.Ico span.1 (span.1 + span.2) := by
    ext point
    rw [Finset.mem_filter, Finset.mem_range, Finset.mem_Ico]
    unfold Inside
    omega
  rw [interval, Nat.card_Ico]
  omega

theorem card_covered (spans : List (Nat × Nat))
    (ordered : spans.Pairwise (fun first second => first.1 + first.2 ≤ second.1))
    (below : ∀ span ∈ spans, span.1 + span.2 ≤ capacity) :
    ((Finset.range capacity).filter (fun point => ∃ span ∈ spans, Inside point span)).card =
      (spans.map Prod.snd).sum := by
  induction spans with
  | nil => simp
  | cons span rest ih =>
      rw [List.pairwise_cons] at ordered
      have split : (Finset.range capacity).filter
            (fun point => ∃ other ∈ span :: rest, Inside point other) =
          (Finset.range capacity).filter (fun point => Inside point span) ∪
            (Finset.range capacity).filter (fun point => ∃ other ∈ rest, Inside point other) := by
        rw [← Finset.filter_or]
        simp only [List.mem_cons, exists_eq_or_imp]
      have disjoint : Disjoint
          ((Finset.range capacity).filter (fun point => Inside point span))
          ((Finset.range capacity).filter (fun point => ∃ other ∈ rest, Inside point other)) := by
        rw [Finset.disjoint_filter]
        intro point _ here there
        rcases there with ⟨other, member, low, _⟩
        have later := ordered.1 other member
        have high := here.2
        omega
      rw [split, Finset.card_union_of_disjoint disjoint, card_inside (below span List.mem_cons_self),
        ih ordered.2 (fun other member => below other (List.mem_cons_of_mem span member)),
        List.map_cons, List.sum_cons]

theorem volume (tiling : Tiling capacity free live) (listsFree : Lists freeSpans free)
    (listsLive : Lists liveSpans live) :
    (freeSpans.map Prod.snd).sum + (liveSpans.map Prod.snd).sum = capacity := by
  classical
  have whole : (Finset.range capacity).filter (Covers free) ∪
      (Finset.range capacity).filter (Covers live) = Finset.range capacity := by
    rw [← Finset.filter_or]
    apply Finset.filter_true_of_mem
    intro point member
    exact (tiling.covered point).mp (Finset.mem_range.mp member)
  have disjoint : Disjoint ((Finset.range capacity).filter (Covers free))
      ((Finset.range capacity).filter (Covers live)) := by
    rw [Finset.disjoint_filter]
    intro point _ inFree
    exact ((tiling.covers_free_iff point).mp inFree).2
  have counted := Finset.card_union_of_disjoint disjoint
  rw [whole, Finset.card_range] at counted
  simp only [listsFree.covers, listsLive.covers] at counted
  rw [card_covered freeSpans (listsFree.ordered tiling.freeApart)
      (fun span member => tiling.free_below ((listsFree.mem span.1 span.2).mp member)),
    card_covered liveSpans (listsLive.ordered tiling.liveApart)
      (fun span member => tiling.live_below ((listsLive.mem span.1 span.2).mp member))] at counted
  exact counted.symm

end Volume

def Uniform (unit : Nat) (live : SpanTable) : Prop :=
  ∀ offset length, live offset = some length → length = unit ∧ unit ∣ offset

section Uniform

variable {capacity unit : Nat} {free live : SpanTable} {freeSpans liveSpans : List (Nat × Nat)}
  {offset length : Nat}

theorem Uniform.slot (uniform : Uniform unit live) {point : Nat} (covered : Covers live point) :
    ∃ offset, unit ∣ offset ∧ offset ≤ point ∧ point < offset + unit ∧ live offset = some unit := by
  rcases covered with ⟨offset, length, held, low, high⟩
  have same := uniform offset length held
  rw [same.1] at held high
  exact ⟨offset, same.2, low, high, held⟩

theorem Gap.aligned (gap : Gap capacity live offset length) (uniform : Uniform unit live) :
    unit ∣ offset := by
  cases offset with
  | zero => exact Nat.dvd_zero unit
  | succ before =>
      rcases uniform.slot (gap.bounded before rfl) with ⟨start, aligned, low, high, held⟩
      have ends : start + unit = before + 1 := by
        by_contra further
        have positive := gap.positive
        exact gap.clear (before + 1) (Nat.le_refl _) (by omega)
          ⟨start, unit, held, by omega, by omega⟩
      rw [← ends]
      exact Nat.dvd_add aligned (Nat.dvd_refl unit)

theorem Gap.whole (gap : Gap capacity live offset length) (uniform : Uniform unit live) :
    unit ∣ length ∨ offset + length = capacity := by
  rcases Nat.lt_or_ge (offset + length) capacity with before | reached
  · rcases uniform.slot (gap.ended before) with ⟨start, aligned, low, high, held⟩
    have starts : start = offset + length := by
      by_contra earlier
      have positive := gap.positive
      exact gap.clear (offset + length - 1) (by omega) (by omega)
        ⟨start, unit, held, by omega, by omega⟩
    rw [starts] at aligned
    exact Or.inl ((Nat.dvd_add_right (gap.aligned uniform)).mp aligned)
  · exact Or.inr (Nat.le_antisymm gap.inside reached)

theorem residue_lt (positive : 0 < unit) (spans : List (Nat × Nat))
    (ordered : spans.Pairwise (fun first second => first.1 + first.2 ≤ second.1))
    (nonempty : ∀ span ∈ spans, 0 < span.2) (below : ∀ span ∈ spans, span.1 + span.2 ≤ capacity)
    (whole : ∀ span ∈ spans, unit ∣ span.2 ∨ span.1 + span.2 = capacity) :
    (spans.map (fun span => span.2 % unit)).sum < unit := by
  induction spans with
  | nil => exact positive
  | cons span rest ih =>
      rw [List.pairwise_cons] at ordered
      rw [List.map_cons, List.sum_cons]
      rcases whole span List.mem_cons_self with divides | last
      · rw [Nat.mod_eq_zero_of_dvd divides, Nat.zero_add]
        exact ih ordered.2 (fun other member => nonempty other (List.mem_cons_of_mem span member))
          (fun other member => below other (List.mem_cons_of_mem span member))
          (fun other member => whole other (List.mem_cons_of_mem span member))
      · cases rest with
        | nil => exact Nat.mod_lt _ positive
        | cons other rest =>
            have member : other ∈ span :: other :: rest := by simp
            have later := ordered.1 other List.mem_cons_self
            have some := nonempty other member
            have inside := below other member
            omega

theorem sum_div_add_mod (spans : List (Nat × Nat)) :
    (spans.map Prod.snd).sum = unit * (spans.map (fun span => span.2 / unit)).sum +
      (spans.map (fun span => span.2 % unit)).sum := by
  induction spans with
  | nil => simp
  | cons span rest ih =>
      have split := Nat.div_add_mod span.2 unit
      simp only [List.map_cons, List.sum_cons, Nat.mul_add, ih]
      omega

theorem rooms_add_live (tiling : Tiling capacity free live) (coalesced : Coalesced free)
    (uniform : Uniform unit live) (positive : 0 < unit) (listsFree : Lists freeSpans free)
    (listsLive : Lists liveSpans live) :
    (freeSpans.map (fun span => span.2 / unit)).sum + liveSpans.length = capacity / unit := by
  have live : (liveSpans.map Prod.snd).sum = liveSpans.length * unit := by
    rw [List.map_congr_left (fun span member =>
      (uniform span.1 span.2 ((listsLive.mem span.1 span.2).mp member)).1)]
    simp
  have rest := @residue_lt capacity unit positive freeSpans (listsFree.ordered tiling.freeApart)
    (fun span member => tiling.freePositive _ _ ((listsFree.mem span.1 span.2).mp member))
    (fun span member => tiling.free_below ((listsFree.mem span.1 span.2).mp member))
    (fun span member =>
      (tiling.gap_of_free coalesced ((listsFree.mem span.1 span.2).mp member)).whole uniform)
  have total := tiling.volume listsFree listsLive
  rw [live, @sum_div_add_mod unit freeSpans, Nat.mul_comm unit] at total
  symm
  apply Nat.div_eq_of_lt_le
  · rw [Nat.add_mul]
    omega
  · rw [Nat.succ_mul, Nat.add_mul]
    omega

end Uniform

end VectorVault.Tiling
