import VectorVault.IvfSplits

/-! Whole numbers of a line as the vectors of live records.

With exact arithmetic on them two partitionings are known from what is drawn: one
where every number is drawn, and one where a four and a ten fall together or not. -/

namespace VectorVault.IvfIndex

open FloatOrder Alternation

section Lines

variable {D : Type} [LinearOrder D] [OrderTop D]

def gap (first second : Nat) : Nat := first - second + (second - first)

/-- Exact arithmetic, as far as it takes a few whole numbers of a line. -/
structure Line (host : Host D) (dimensionality : UInt32) where
  point : Nat → List F32
  length : ∀ number, (point number).length = dimensionality.toNat
  nearer : ∀ from_ ≤ 100, ∀ first ≤ 100, ∀ second ≤ 100,
    host.squaredL2 (point from_) (point first) < host.squaredL2 (point from_) (point second) ↔
      gap from_ first < gap from_ second
  copies : ∀ number ≤ 100, ∀ count,
    host.mean (List.replicate (count + 1) (point number)) = point number
  middle : host.mean [point 4, point 10] = point 7
  /-- The mean of four and zeros is no farther off than they are. -/
  between : ∀ count, ∃ low, host.mean (point 4 :: List.replicate (count + 1) (point 0)) = low ∧
    host.squaredL2 (point 0) low ≤ host.squaredL2 (point 0) (point 4) ∧
    host.squaredL2 (point 4) low ≤ host.squaredL2 (point 4) (point 0) ∧
    host.squaredL2 (point 10) (point 4) ≤ host.squaredL2 (point 10) low ∧
    host.squaredL2 (point 100) (point 4) ≤ host.squaredL2 (point 100) low

variable {host : Host D} {dimensionality : UInt32} (line : Line host dimensionality)
  {index : IvfIndex}

omit [OrderTop D] in
theorem Line.less {from_ first second : Nat} (a : from_ ≤ 100) (b : first ≤ 100)
    (c : second ≤ 100)
    (nearer : from_ - first + (first - from_) < from_ - second + (second - from_)) :
    host.squaredL2 (line.point from_) (line.point first) <
      host.squaredL2 (line.point from_) (line.point second) :=
  (line.nearer from_ a first b second c).mpr nearer

theorem copies_of {point : Nat → List F32} {value : RecordId → Nat}
    (vectors : ∀ entry ∈ index.liveEntries, entry.vector = point (value entry.id))
    {id : RecordId} (live : id ∈ index.liveIds) :
    ∃ count, (index.liveEntries.filter (fun entry => value entry.id = value id)).map
      IvfEntry.vector = List.replicate (count + 1) (point (value id)) := by
  have all : ∀ vec ∈ (index.liveEntries.filter (fun entry => value entry.id = value id)).map
      IvfEntry.vector, vec = point (value id) := by
    rw [List.forall_mem_map]
    intro entry member
    rcases List.mem_filter.mp member with ⟨inside, same⟩
    rw [vectors entry inside, of_decide_eq_true same]
  have replicated := List.eq_replicate_of_mem all
  rcases List.mem_map.mp live with ⟨entry, inside, isId⟩
  have itself : entry.vector ∈ (index.liveEntries.filter
      (fun entry => value entry.id = value id)).map IvfEntry.vector := by
    apply List.mem_map_of_mem
    exact List.mem_filter.mpr ⟨inside, decide_eq_true (by rw [isId])⟩
  rcases Nat.exists_eq_add_one.mpr (List.length_pos_of_mem itself) with ⟨count, isCount⟩
  rw [isCount] at replicated
  exact ⟨count, replicated⟩

omit [OrderTop D] in
theorem Line.covered {value : RecordId → Nat}
    (vectors : ∀ entry ∈ index.liveEntries, entry.vector = line.point (value entry.id))
    (small : ∀ id ∈ index.liveIds, value id ≤ 100)
    (covered : ∀ id ∈ index.liveIds, ∃ drawn ∈ index.drawnIds host, value drawn = value id) :
    Split host index line.point value (fun number => number) line.point := by
  have apart : ∀ id ∈ index.liveIds, ∀ drawn ∈ index.drawnIds host, value drawn ≠ value id →
      host.squaredL2 (line.point (value id)) (line.point (value id)) <
        host.squaredL2 (line.point (value id)) (line.point (value drawn)) := by
    intro id live drawn isDrawn differs
    apply line.less (small id live) (small id live) (small drawn (Split.drawn_live isDrawn))
    omega
  refine ⟨vectors, covered, fun _ _ => rfl, apart, ?_, fun _ _ => Or.inl rfl, apart⟩
  intro drawn isDrawn
  rcases copies_of vectors (Split.drawn_live isDrawn) with ⟨count, copies⟩
  rw [copies]
  exact line.copies _ (small drawn (Split.drawn_live isDrawn)) count

/-- Zero and two are equally far from one, so the first cell that is not at a hundred is
the nearest. -/
theorem Line.first_nearest {value : RecordId → Nat} {drawn first rest : List RecordId}
    (numbers : ∀ id ∈ drawn, value id = 0 ∨ value id = 2 ∨ value id = 100) {id : RecordId}
    (order : drawn = first ++ id :: rest) (far : ∀ other ∈ first, value other = 100)
    (near : value id ≠ 100) :
    FirstLeast ((drawn.map (fun other => line.point (value other))).map
      (host.squaredL2 (line.point 1))) (drawn.findIdx (fun other => value other = value id)) := by
  have member : id ∈ drawn := by
    rw [order]
    exact List.mem_append_right first List.mem_cons_self
  have equal : host.squaredL2 (line.point 1) (line.point 0) =
      host.squaredL2 (line.point 1) (line.point 2) := by
    apply le_antisymm
    · apply not_lt.mp
      rw [line.nearer 1 (by decide) 2 (by decide) 0 (by decide)]
      decide
    · apply not_lt.mp
      rw [line.nearer 1 (by decide) 0 (by decide) 2 (by decide)]
      decide
  have places : drawn.findIdx (fun other => value other = value id) =
      drawn.findIdx (fun other => value other ≠ 100) := by
    rw [order]
    calc (first ++ id :: rest).findIdx (fun other => value other = value id)
        = first.length := by
          apply findIdx_middle
          · exact decide_eq_true rfl
          · intro other before
            exact decide_eq_false (fun same => near (same.symm.trans (far other before)))
      _ = (first ++ id :: rest).findIdx (fun other => value other ≠ 100) := by
          symm
          apply findIdx_middle
          · exact decide_eq_true near
          · intro other before
            exact decide_eq_false (not_not.mpr (far other before))
  rw [places, List.map_map]
  apply firstLeast_findIdx ⟨id, member, decide_eq_true near⟩
  · intro other inside differs
    rw [Function.comp_apply]
    rcases numbers other inside with zero | two | hundred
    · rw [zero]
    · rw [two, equal]
    · exact absurd hundred (of_decide_eq_true differs)
  · intro other _ same
    have hundred : value other = 100 := by
      by_contra differs
      exact same (decide_eq_true differs)
    rw [Function.comp_apply, hundred]
    exact line.less (by decide) (by decide) (by decide) (by decide)

theorem Line.answers_first (kept : index.Kept host) {value : RecordId → Nat}
    (vectors : ∀ entry ∈ index.liveEntries, entry.vector = line.point (value entry.id))
    (numbers : ∀ id ∈ index.liveIds, value id = 0 ∨ value id = 2 ∨ value id = 100)
    (covered : ∀ id ∈ index.liveIds, ∃ drawn ∈ index.drawnIds host, value drawn = value id)
    {first rest : List RecordId} {id : RecordId} (order : index.drawnIds host = first ++ id :: rest)
    (far : ∀ other ∈ first, value other = 100) (near : value id ≠ 100) :
    ∃ candidate after, index.search host (line.point 1) 1 { nprobe := 1 } =
      .ok ([candidate], after) ∧ value candidate.id = value id := by
  have isDrawn : id ∈ index.drawnIds host := by
    rw [order]
    exact List.mem_append_right first List.mem_cons_self
  have isLive := Split.drawn_live isDrawn
  have small : ∀ id ∈ index.liveIds, value id ≤ 100 := by
    intro id live
    rcases numbers id live with zero | two | hundred
    · omega
    · omega
    · omega
  have split := line.covered vectors small covered
  have live : index.liveCount ≠ 0 := by
    rw [← kept.wellFormed.live_length]
    intro none
    rw [liveIds, List.length_eq_zero_iff.mp none] at isLive
    exact List.not_mem_nil isLive
  have nearest := line.first_nearest (fun other member => numbers other (Split.drawn_live member))
    order far near
  rcases split.search_one kept live ⟨id, isDrawn, rfl⟩ nearest (show (1 : UInt32) ≠ 0 by decide)
    (show ({ nprobe := 1 } : QueryParams).nprobe = 1 from rfl) with ⟨after, searched⟩
  -- The cell holds the record itself, and what it holds has the same number.
  rcases List.mem_map.mp isLive with ⟨entry, inside, isId⟩
  have some_ : (⟨entry.id, host.distanceOr index.metric (line.point 1) entry.vector⟩ : Candidate D) ∈
      sortBy HnswIndex.candidateLt ((index.liveEntries.filter (fun entry =>
        value entry.id = value id)).map (fun entry =>
          ⟨entry.id, host.distanceOr index.metric (line.point 1) entry.vector⟩)) := by
    rw [mem_sortBy]
    exact List.mem_map_of_mem (List.mem_filter.mpr ⟨inside, decide_eq_true (by rw [isId])⟩)
  cases sorted : sortBy HnswIndex.candidateLt ((index.liveEntries.filter (fun entry =>
      value entry.id = value id)).map (fun entry => (⟨entry.id, host.distanceOr index.metric
        (line.point 1) entry.vector⟩ : Candidate D))) with
  | nil =>
      rw [sorted] at some_
      exact absurd some_ List.not_mem_nil
  | cons candidate others =>
      rw [sorted] at searched
      refine ⟨candidate, after, searched, ?_⟩
      have member : candidate ∈ sortBy HnswIndex.candidateLt ((index.liveEntries.filter
          (fun entry => value entry.id = value id)).map (fun entry =>
            ⟨entry.id, host.distanceOr index.metric (line.point 1) entry.vector⟩)) := by
        rw [sorted]
        exact List.mem_cons_self
      rcases List.mem_map.mp ((mem_sortBy _ _ _).mp member) with ⟨found, there, isCandidate⟩
      rw [← isCandidate]
      exact of_decide_eq_true (List.mem_filter.mp there).2

end Lines

section Merges

variable {D : Type} [LinearOrder D] [OrderTop D] {host : Host D} {dimensionality : UInt32}
  (line : Line host dimensionality) {index : IvfIndex} {value : RecordId → Nat}
  {ten four : RecordId}

theorem filter_picked (wellFormed : index.WellFormed) {picked : List IvfEntry}
    (distinct : picked.Nodup) (live : ∀ entry ∈ picked, entry ∈ index.liveEntries)
    {holds : IvfEntry → Bool} (told : ∀ entry ∈ index.liveEntries,
      holds entry = true ↔ entry.id ∈ picked.map IvfEntry.id) :
    (index.liveEntries.filter holds).Perm picked := by
  have ids : (index.liveEntries.map IvfEntry.id).Nodup :=
    wellFormed.sound.nodup_ids.sublist (List.filter_sublist.map IvfEntry.id)
  apply (List.perm_ext_iff_of_nodup ((List.Nodup.of_map _ ids).filter _) distinct).mpr
  intro entry
  rw [List.mem_filter]
  constructor
  · rintro ⟨member, here⟩
    rcases List.mem_map.mp ((told entry member).mp here) with ⟨other, inside, same⟩
    rw [← List.inj_on_of_nodup_map ids (live other inside) member same]
    exact inside
  · intro inside
    exact ⟨live entry inside, (told entry (live entry inside)).mpr (List.mem_map_of_mem inside)⟩

/-- One record at four, one at ten, the rest at zero and at a hundred, where all are drawn. -/
structure Merged (line : Line host dimensionality) (index : IvfIndex) (value : RecordId → Nat)
    (ten four : RecordId) : Prop where
  vectors : ∀ entry ∈ index.liveEntries, entry.vector = line.point (value entry.id)
  numbers : ∀ id ∈ index.liveIds, value id = 0 ∨ value id = 4 ∨ value id = 10 ∨ value id = 100
  isFour : ∀ id ∈ index.liveIds, value id = 4 ↔ id = four
  isTen : ∀ id ∈ index.liveIds, value id = 10 ↔ id = ten
  fourDrawn : four ∈ index.drawnIds host
  tenLive : ten ∈ index.liveIds
  hundreds : ∀ id ∈ index.liveIds, value id = 100 → id ∈ index.drawnIds host

namespace Merged

variable {line} (merged : Merged line index value ten four)

include merged

omit [OrderTop D] in
theorem drawn_numbers {drawn : RecordId} (isDrawn : drawn ∈ index.drawnIds host) :
    value drawn = 0 ∨ value drawn = 4 ∨ value drawn = 10 ∨ value drawn = 100 :=
  merged.numbers drawn (Split.drawn_live isDrawn)

omit [OrderTop D] in
theorem four_alone {drawn : RecordId} (isDrawn : drawn ∈ index.drawnIds host)
    (isFour : value drawn = 4) :
    ∀ other ∈ index.drawnIds host, value other = value drawn → other = drawn := by
  intro other isOther same
  rw [isFour] at same
  rw [(merged.isFour other (Split.drawn_live isOther)).mp same,
    (merged.isFour drawn (Split.drawn_live isDrawn)).mp isFour]

omit [OrderTop D] in
/-- Records that nobody joins have copies of one vector, and that is their mean. -/
theorem mean_unjoined (target : Nat → Nat) {drawn : RecordId}
    (isDrawn : drawn ∈ index.drawnIds host)
    (unjoined : ∀ number, target number = value drawn ↔ number = value drawn) :
    host.mean ((index.liveEntries.filter (fun entry =>
      target (value entry.id) = value drawn)).map IvfEntry.vector) = line.point (value drawn) := by
  have numbers := merged.drawn_numbers isDrawn
  rcases copies_of merged.vectors (Split.drawn_live isDrawn) with ⟨count, copies⟩
  simp only [unjoined]
  rw [copies, line.copies _ (by omega) count]

omit [OrderTop D] in
theorem pair (wellFormed : index.WellFormed) : ∃ fourth tenth,
    (index.liveEntries.filter (fun entry =>
      (if value entry.id = 10 then 4 else value entry.id) = 4)).Perm [fourth, tenth] ∧
    fourth.vector = line.point 4 ∧ tenth.vector = line.point 10 := by
  have fourLive := Split.drawn_live merged.fourDrawn
  have fourValue : value four = 4 := (merged.isFour four fourLive).mpr rfl
  have tenValue : value ten = 10 := (merged.isTen ten merged.tenLive).mpr rfl
  rcases List.mem_map.mp fourLive with ⟨fourth, fourIn, fourId⟩
  rcases List.mem_map.mp merged.tenLive with ⟨tenth, tenIn, tenId⟩
  have apart : fourth ≠ tenth := by
    intro same
    rw [same, tenId] at fourId
    rw [fourId, fourValue] at tenValue
    exact absurd tenValue (by decide)
  refine ⟨fourth, tenth, ?_, by rw [merged.vectors fourth fourIn, fourId, fourValue],
    by rw [merged.vectors tenth tenIn, tenId, tenValue]⟩
  apply filter_picked wellFormed (by simpa using apart)
  · intro entry member
    rcases List.mem_pair.mp member with same | same
    · rw [same]
      exact fourIn
    · rw [same]
      exact tenIn
  · intro entry member
    have live : entry.id ∈ index.liveIds := List.mem_map_of_mem member
    rw [decide_eq_true_iff, List.map_cons, List.map_cons, List.map_nil, List.mem_pair, fourId,
      tenId, ← merged.isFour _ live, ← merged.isTen _ live]
    split_ifs with isTen
    · exact ⟨fun _ => Or.inr isTen, fun _ => rfl⟩
    · exact ⟨Or.inl, fun either => either.resolve_right isTen⟩

omit [OrderTop D] in
theorem together (orderFree : OrderFree host) (wellFormed : index.WellFormed)
    {zero : RecordId} (zeroDrawn : zero ∈ index.drawnIds host) (isZero : value zero = 0)
    (tenLeft : ten ∉ index.drawnIds host) :
    Split host index line.point value (fun number => if number = 10 then 4 else number)
      (fun number => line.point (if number = 4 then 7 else number)) := by
  have fourLive := Split.drawn_live merged.fourDrawn
  have fourValue : value four = 4 := (merged.isFour four fourLive).mpr rfl
  have noTen : ∀ drawn ∈ index.drawnIds host, value drawn ≠ 10 := by
    intro drawn isDrawn isTen
    rw [(merged.isTen drawn (Split.drawn_live isDrawn)).mp isTen] at isDrawn
    exact tenLeft isDrawn
  refine ⟨merged.vectors, ?_, ?_, ?_, ?_, ?_, ?_⟩
  · intro id live
    rcases merged.numbers id live with none | isFour | isTen | hundred
    · exact ⟨zero, zeroDrawn, by rw [isZero, none]; rfl⟩
    · exact ⟨four, merged.fourDrawn, by rw [fourValue, isFour]; rfl⟩
    · exact ⟨four, merged.fourDrawn, by rw [fourValue, isTen]; rfl⟩
    · exact ⟨id, merged.hundreds id live hundred, by rw [hundred]; rfl⟩
  · intro drawn isDrawn
    exact if_neg (noTen drawn isDrawn)
  · intro id live drawn isDrawn differs
    have numbers := merged.numbers id live
    have numbers' := merged.drawn_numbers isDrawn
    have other := noTen drawn isDrawn
    split_ifs at differs ⊢ with isTen
    · apply line.less <;> omega
    · apply line.less <;> omega
  · intro drawn isDrawn
    by_cases isFour : value drawn = 4
    · rcases merged.pair wellFormed with ⟨fourth, tenth, picked, fourVector, tenVector⟩
      rw [isFour, orderFree _ _ (picked.map IvfEntry.vector), List.map_cons, List.map_cons,
        List.map_nil, fourVector, tenVector, line.middle]
      rfl
    · have other := noTen drawn isDrawn
      rw [if_neg isFour]
      apply merged.mean_unjoined (fun number => if number = 10 then 4 else number) isDrawn
      intro number
      split_ifs <;> omega
  · intro drawn isDrawn
    by_cases isFour : value drawn = 4
    · exact Or.inr (merged.four_alone isDrawn isFour)
    · left
      rw [if_neg isFour]
  · intro id live drawn isDrawn differs
    have numbers := merged.numbers id live
    have numbers' := merged.drawn_numbers isDrawn
    have other := noTen drawn isDrawn
    apply line.less
    · omega
    · split_ifs <;> omega
    · split_ifs <;> omega
    · split_ifs at differs ⊢ <;> omega

omit [OrderTop D] in
/-- What the zeros join, in whatever order they all stand. -/
theorem four_and_zeros (wellFormed : index.WellFormed) : ∃ fourth : IvfEntry,
    (index.liveEntries.filter (fun entry =>
      (if value entry.id = 0 then 4 else value entry.id) = 4)).Perm
        (fourth :: index.liveEntries.filter (fun entry => value entry.id = 0)) ∧
    fourth.vector = line.point 4 := by
  have fourLive := Split.drawn_live merged.fourDrawn
  rcases List.mem_map.mp fourLive with ⟨fourth, fourIn, fourId⟩
  have single : (index.liveEntries.filter (fun entry => value entry.id = 4)).Perm [fourth] := by
    apply filter_picked wellFormed (List.nodup_singleton fourth)
    · intro entry member
      rw [List.mem_singleton.mp member]
      exact fourIn
    · intro entry member
      rw [decide_eq_true_iff, merged.isFour _ (List.mem_map_of_mem member), List.map_cons,
        List.map_nil, List.mem_singleton, fourId]
  have halves := List.filter_append_perm (fun entry : IvfEntry => decide (value entry.id = 4))
    (index.liveEntries.filter (fun entry =>
      (if value entry.id = 0 then 4 else value entry.id) = 4))
  rw [List.filter_filter, List.filter_filter] at halves
  have fours : index.liveEntries.filter (fun entry => decide (value entry.id = 4) &&
        decide ((if value entry.id = 0 then 4 else value entry.id) = 4)) =
      index.liveEntries.filter (fun entry => value entry.id = 4) := by
    apply List.filter_congr
    intro entry _
    rw [← Bool.decide_and]
    apply decide_eq_decide.mpr
    split_ifs <;> omega
  have rest : index.liveEntries.filter (fun entry => !decide (value entry.id = 4) &&
        decide ((if value entry.id = 0 then 4 else value entry.id) = 4)) =
      index.liveEntries.filter (fun entry => value entry.id = 0) := by
    apply List.filter_congr
    intro entry _
    rw [← decide_not, ← Bool.decide_and]
    apply decide_eq_decide.mpr
    split_ifs <;> omega
  rw [fours, rest] at halves
  refine ⟨fourth, halves.symm.trans (single.append_right _), ?_⟩
  rw [merged.vectors fourth fourIn, fourId, (merged.isFour four fourLive).mpr rfl]

omit [OrderTop D] in
theorem alone (orderFree : OrderFree host) (wellFormed : index.WellFormed)
    {zero : RecordId} (zeroLive : zero ∈ index.liveIds) (isZero : value zero = 0)
    (zerosLeft : ∀ drawn ∈ index.drawnIds host, value drawn ≠ 0)
    (tenDrawn : ten ∈ index.drawnIds host) :
    ∃ low, Split host index line.point value (fun number => if number = 0 then 4 else number)
        (fun number => if number = 4 then low else line.point number) ∧
      host.squaredL2 (line.point 10) (line.point 4) ≤ host.squaredL2 (line.point 10) low := by
  have fourLive := Split.drawn_live merged.fourDrawn
  have fourValue : value four = 4 := (merged.isFour four fourLive).mpr rfl
  have tenValue : value ten = 10 := (merged.isTen ten merged.tenLive).mpr rfl
  rcases copies_of merged.vectors zeroLive with ⟨count, zeros⟩
  rw [isZero] at zeros
  rcases line.between count with ⟨low, isLow, fromZero, fromFour, fromTen, fromHundred⟩
  have mean : host.mean ((index.liveEntries.filter (fun entry =>
      (if value entry.id = 0 then 4 else value entry.id) = 4)).map IvfEntry.vector) = low := by
    rcases merged.four_and_zeros wellFormed with ⟨fourth, parts, isFourth⟩
    rw [orderFree _ _ (parts.map IvfEntry.vector), List.map_cons, zeros, isFourth, isLow]
  refine ⟨low, ⟨merged.vectors, ?_, ?_, ?_, ?_, ?_, ?_⟩, fromTen⟩
  · intro id live
    rcases merged.numbers id live with none | isFour | isTen | hundred
    · exact ⟨four, merged.fourDrawn, by rw [fourValue, none]; rfl⟩
    · exact ⟨four, merged.fourDrawn, by rw [fourValue, isFour]; rfl⟩
    · exact ⟨ten, tenDrawn, by rw [tenValue, isTen]; rfl⟩
    · exact ⟨id, merged.hundreds id live hundred, by rw [hundred]; rfl⟩
  · intro drawn isDrawn
    exact if_neg (zerosLeft drawn isDrawn)
  · intro id live drawn isDrawn differs
    have numbers := merged.numbers id live
    have numbers' := merged.drawn_numbers isDrawn
    have other := zerosLeft drawn isDrawn
    split_ifs at differs ⊢ with none
    · apply line.less <;> omega
    · apply line.less <;> omega
  · intro drawn isDrawn
    have other := zerosLeft drawn isDrawn
    by_cases isFour : value drawn = 4
    · rw [if_pos isFour, isFour]
      exact mean
    · rw [if_neg isFour]
      apply merged.mean_unjoined (fun number => if number = 0 then 4 else number) isDrawn
      intro number
      split_ifs <;> omega
  · intro drawn isDrawn
    by_cases isFour : value drawn = 4
    · exact Or.inr (merged.four_alone isDrawn isFour)
    · left
      rw [if_neg isFour]
  · intro id live drawn isDrawn differs
    have numbers := merged.drawn_numbers isDrawn
    have other := zerosLeft drawn isDrawn
    have less : ∀ from_ ≤ 100, ∀ first ≤ 100,
        from_ - first + (first - from_) < from_ - value drawn + (value drawn - from_) →
        host.squaredL2 (line.point from_) (line.point first) <
          host.squaredL2 (line.point from_) (line.point (value drawn)) :=
      fun from_ a first b => line.less a b (by omega)
    rcases merged.numbers id live with none | isFour | isTen | hundred
    · simp only [none, if_true] at differs ⊢
      rw [if_neg differs]
      apply lt_of_le_of_lt fromZero
      apply less 0 (by decide) 4 (by decide)
      omega
    · have four_ : ¬ (4 : Nat) = 0 := by decide
      simp only [isFour, if_true, if_neg four_] at differs ⊢
      rw [if_neg differs]
      apply lt_of_le_of_lt fromFour
      apply less 4 (by decide) 0 (by decide)
      omega
    · have ten_ : ¬ (10 : Nat) = 0 ∧ ¬ (10 : Nat) = 4 := by decide
      simp only [isTen, if_neg ten_.1, if_neg ten_.2] at differs ⊢
      split_ifs with toFour
      · exact lt_of_lt_of_le (line.less (by decide) (by decide) (by decide) (by decide)) fromTen
      · apply less 10 (by decide) 10 (by decide)
        omega
    · have hundred_ : ¬ (100 : Nat) = 0 ∧ ¬ (100 : Nat) = 4 := by decide
      simp only [hundred, if_neg hundred_.1, if_neg hundred_.2] at differs ⊢
      split_ifs with toFour
      · exact lt_of_lt_of_le (line.less (by decide) (by decide) (by decide) (by decide)) fromHundred
      · apply less 100 (by decide) 100 (by decide)
        omega

omit [OrderTop D] in
theorem some_live (wellFormed : index.WellFormed) : index.liveCount ≠ 0 := by
  rw [← wellFormed.live_length]
  intro none
  have live := merged.tenLive
  rw [liveIds, List.length_eq_zero_iff.mp none] at live
  exact List.not_mem_nil live

theorem answers_two (orderFree : OrderFree host) (kept : index.Kept host) {zero : RecordId}
    (zeroDrawn : zero ∈ index.drawnIds host) (isZero : value zero = 0)
    (tenLeft : ten ∉ index.drawnIds host) :
    ∃ candidates after, index.search host (line.point 10) 2 { nprobe := 1 } =
      .ok (candidates, after) ∧ candidates.length = 2 := by
  have split := merged.together orderFree kept.wellFormed zeroDrawn isZero tenLeft
  have fourValue := (merged.isFour four (Split.drawn_live merged.fourDrawn)).mpr rfl
  have nearest := @Split.firstLeast_place D _ _ host index value 4 (line.point 10)
    (fun number => line.point (if number = 4 then 7 else number))
    ⟨four, merged.fourDrawn, fourValue⟩ (by
      intro drawn isDrawn differs
      have numbers := merged.drawn_numbers isDrawn
      have noTen : value drawn ≠ 10 := by
        intro isTen
        rw [(merged.isTen drawn (Split.drawn_live isDrawn)).mp isTen] at isDrawn
        exact tenLeft isDrawn
      simp only [if_neg differs, if_true]
      apply line.less <;> omega)
  rcases split.search_one kept (merged.some_live kept.wellFormed)
    ⟨four, merged.fourDrawn, fourValue⟩ nearest (show (2 : UInt32) ≠ 0 by decide)
    (show ({ nprobe := 1 } : QueryParams).nprobe = 1 from rfl) with ⟨after, searched⟩
  refine ⟨_, after, searched, ?_⟩
  rcases merged.pair kept.wellFormed with ⟨_, _, picked, _⟩
  rw [List.length_take, length_sortBy, List.length_map, picked.length_eq]
  rfl

theorem answers_one (orderFree : OrderFree host) (kept : index.Kept host) {zero : RecordId}
    (zeroLive : zero ∈ index.liveIds) (isZero : value zero = 0)
    (zerosLeft : ∀ drawn ∈ index.drawnIds host, value drawn ≠ 0)
    (tenDrawn : ten ∈ index.drawnIds host) :
    ∃ candidates after, index.search host (line.point 10) 2 { nprobe := 1 } =
      .ok (candidates, after) ∧ candidates.length = 1 := by
  rcases merged.alone orderFree kept.wellFormed zeroLive isZero zerosLeft tenDrawn with
    ⟨low, split, fromTen⟩
  have tenValue := (merged.isTen ten merged.tenLive).mpr rfl
  have nearest := @Split.firstLeast_place D _ _ host index value 10 (line.point 10)
    (fun number => if number = 4 then low else line.point number)
    ⟨ten, tenDrawn, tenValue⟩ (by
      intro drawn isDrawn differs
      have numbers := merged.drawn_numbers isDrawn
      have noZero := zerosLeft drawn isDrawn
      have ten_ : ¬ (10 : Nat) = 4 := by decide
      simp only [if_neg ten_]
      split_ifs with isFour
      · exact lt_of_lt_of_le (line.less (by decide) (by decide) (by decide) (by decide)) fromTen
      · apply line.less <;> omega)
  rcases split.search_one kept (merged.some_live kept.wellFormed) ⟨ten, tenDrawn, tenValue⟩ nearest
    (show (2 : UInt32) ≠ 0 by decide)
    (show ({ nprobe := 1 } : QueryParams).nprobe = 1 from rfl) with ⟨after, searched⟩
  refine ⟨_, after, searched, ?_⟩
  rcases List.mem_map.mp merged.tenLive with ⟨tenth, tenIn, tenId⟩
  have picked : (index.liveEntries.filter (fun entry =>
      (if value entry.id = 0 then 4 else value entry.id) = 10)).Perm [tenth] := by
    apply filter_picked kept.wellFormed (List.nodup_singleton tenth)
    · intro entry member
      rw [List.mem_singleton.mp member]
      exact tenIn
    · intro entry member
      rw [decide_eq_true_iff, List.map_cons, List.map_nil, List.mem_singleton, tenId,
        ← merged.isTen _ (List.mem_map_of_mem member)]
      split_ifs <;> omega
  rw [List.length_take, length_sortBy, List.length_map, picked.length_eq]
  rfl

end Merged

end Merges

end VectorVault.IvfIndex
