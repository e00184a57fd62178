import VectorVault.IvfLines

/-! What two slot orders of the same records have to share.

The seeded shuffle takes positions, so it draws the records that stand there. Two
indexes with the same live map answer alike where the same vectors are drawn, and
where every cell is probed. Where other records are drawn, and into more than one
cell, there are vectors for the records by which the answers differ. -/

namespace VectorVault.IvfIndex

open FloatOrder

section Choices

variable {D : Type} [LinearOrder D] [OrderTop D] {host : Host D} {dimensionality : UInt32}
  {metric : DistanceMetric} {params : IndexParams} (line : Line host dimensionality)
  {one other index : IvfIndex}

theorem vectorsAfter_listed (vectors : RecordId → Option (List F32)) (ids : List RecordId)
    (vec : RecordId → List F32) (id : RecordId) :
    vectorsAfter vectors (ids.map (fun id => (id, vec id))) id =
      if id ∈ ids then some (vec id) else vectors id := by
  induction ids generalizing vectors with
  | nil => rfl
  | cons first rest ih =>
      have step := ih (fun held => if held = first then some (vec first) else vectors held)
      rw [List.map_cons, vectorsAfter, List.foldl_cons]
      rw [vectorsAfter] at step
      rw [step]
      by_cases later : id ∈ rest
      · rw [if_pos later, if_pos (List.mem_cons_of_mem first later)]
      · rw [if_neg later]
        by_cases here : id = first
        · rw [if_pos here, if_pos (by rw [here]; exact List.mem_cons_self), here]
        · rw [if_neg here, if_neg (fun member => (List.mem_cons.mp member).elim here later)]

theorem Line.overwrites (reached : Reached host dimensionality metric params index)
    (value : RecordId → Nat) :
    index.Overwrites (index.liveIds.map (fun id => (id, line.point (value id)))) := by
  have sized : index.dimensionality = dimensionality := congrArg Prod.fst (reached.kept host).2
  unfold Overwrites
  rw [List.forall_mem_map]
  intro id member
  exact ⟨member, by rw [line.length, sized]⟩

theorem Line.renumbered (reached : Reached host dimensionality metric params index)
    (value : RecordId → Nat) {ids : List RecordId} (live : ∀ id, id ∈ ids ↔ id ∈ index.liveIds) :
    ∃ after, index.addAll (ids.map (fun id => (id, line.point (value id)))) = .ok after ∧
      after.Kept host ∧ after.liveIds = index.liveIds ∧
      after.drawnIds host = index.drawnIds host ∧
      ∀ entry ∈ after.liveEntries, entry.vector = line.point (value entry.id) := by
  rcases reached.kept host with ⟨kept, settings⟩
  have sized : dimensionality = index.dimensionality := (congrArg Prod.fst settings).symm
  have valid : index.Overwrites (ids.map (fun id => (id, line.point (value id)))) := by
    unfold Overwrites
    rw [List.forall_mem_map]
    intro id member
    exact ⟨(live id).mp member, by rw [line.length, sized]⟩
  rcases reached.overwritten valid with ⟨after, done, reachedAfter, same, table⟩
  rcases reachedAfter.kept host with ⟨keptAfter, settingsAfter⟩
  refine ⟨after, done, keptAfter, same, drawnIds_congr (settingsAfter.trans settings.symm) same, ?_⟩
  intro entry member
  have inside : entry.id ∈ after.liveIds := List.mem_map_of_mem member
  rcases List.mem_filter.mp member with ⟨held, alive⟩
  have known : after.roster.vectorOf entry.id = some entry.vector :=
    (keptAfter.wellFormed.sound.vectorOf_iff entry.id _).mpr
      ⟨entry, held, rfl, by simpa using alive, rfl⟩
  rw [same, ← live] at inside
  rw [table, vectorsAfter_listed, if_pos inside] at known
  exact (Option.some.inj known).symm

theorem first_difference {A : Type} {first second : List A} (length : first.length = second.length)
    (differs : first ≠ second) : ∃ front left right rest rest', first = front ++ left :: rest ∧
      second = front ++ right :: rest' ∧ left ≠ right ∧ rest.length = rest'.length := by
  induction first generalizing second with
  | nil =>
      cases second with
      | nil => exact absurd rfl differs
      | cons head rest => cases length
  | cons head rest ih =>
      cases second with
      | nil => cases length
      | cons head' rest' =>
          have shorter := Nat.succ.inj length
          by_cases same : head = head'
          · rw [same] at differs ⊢
            rcases ih shorter (fun equal => differs (by rw [equal])) with
              ⟨front, left, right, tail, tail', isFirst, isSecond, apart, lengths⟩
            exact ⟨head' :: front, left, right, tail, tail', by rw [isFirst]; rfl,
              by rw [isSecond]; rfl, apart, lengths⟩
          · exact ⟨[], head, head', rest, rest', rfl, rfl, same, shorter⟩

/-- Both answer every search alike, whatever vectors their live records are given. -/
def Interchangeable (host : Host D) (one other : IvfIndex) : Prop :=
  ∀ records one' other', one.Overwrites records → one.addAll records = .ok one' →
    other.addAll records = .ok other' → ∀ q k query, SameAnswer host one' other' q k query

theorem Interchangeable.found (alike : Interchangeable host one other)
    {records : List (RecordId × List F32)} (valid : one.Overwrites records)
    {after after' final final' : IvfIndex} (done : one.addAll records = .ok after)
    (done' : other.addAll records = .ok after') {q : List F32} {k : UInt32} {query : QueryParams}
    {few few' : List (Candidate D)} (searched : after.search host q k query = .ok (few, final))
    (searched' : after'.search host q k query = .ok (few', final')) : few = few' := by
  rcases alike records after after' valid done done' q k query with
    ⟨candidates, _, _, answer, answer'⟩
  rw [searched] at answer
  rw [searched'] at answer'
  calc few
      = candidates := congrArg Prod.fst (Except.ok.inj answer)
    _ = few' := (congrArg Prod.fst (Except.ok.inj answer')).symm

/-- All at zero or two but those in front, `left` and `later'` at zero. -/
theorem exists_order_numbers {front : List RecordId} {left right later later' : RecordId}
    (leftFront : left ∉ front) (rightFront : right ∉ front) (laterFront : later ∉ front)
    (laterFront' : later' ∉ front) (apart : left ≠ right) (isLater : later ≠ left)
    (isLater' : right ≠ later') (differ : later ≠ later') : ∃ value : RecordId → Nat,
      (∀ id, value id = 0 ∨ value id = 2 ∨ value id = 100) ∧ (∀ id, value id = 100 ↔ id ∈ front) ∧
      value left = 0 ∧ value later' = 0 ∧ value right = 2 ∧ value later = 2 := by
  rcases (⟨_, fun _ => rfl⟩ : ∃ value : RecordId → Nat, ∀ id, value id =
    if id ∈ front then 100 else if id = left ∨ id = later' then 0 else 2) with ⟨value, isValue⟩
  refine ⟨value, ?_, ?_, ?_, ?_, ?_, ?_⟩
  · intro id
    rw [isValue]
    split_ifs <;> omega
  · intro id
    rw [isValue]
    split_ifs with inside
    · exact ⟨fun _ => inside, fun _ => rfl⟩
    all_goals exact ⟨fun same => absurd same (by decide), fun here => absurd here inside⟩
  · rw [isValue, if_neg leftFront, if_pos (Or.inl rfl)]
  · rw [isValue, if_neg laterFront', if_pos (Or.inr rfl)]
  · rw [isValue, if_neg rightFront, if_neg (fun either => either.elim apart.symm isLater')]
  · rw [isValue, if_neg laterFront, if_neg (fun either => either.elim isLater differ)]

include line in
/-- Two that draw further records, and not both one, behind the first difference:
with all at zero and two that are drawn there, the first at equal distance is another one. -/
theorem Line.apart_by_order (reached : Reached host dimensionality metric params one)
    (reached' : Reached host dimensionality metric params other)
    (live : ∀ id, id ∈ other.liveIds ↔ id ∈ one.liveIds)
    {front rest rest' : List RecordId} {left right : RecordId}
    (order : one.drawnIds host = front ++ left :: rest)
    (order' : other.drawnIds host = front ++ right :: rest') (apart : left ≠ right)
    {later later' : RecordId} (behind : later ∈ rest) (behind' : later' ∈ rest')
    (differ : later ≠ later') : ¬ Interchangeable host one other := by
  have distinct := @Split.drawnIds_nodup D host _ (reached.kept host).1.wellFormed
  have distinct' := @Split.drawnIds_nodup D host _ (reached'.kept host).1.wellFormed
  rw [order, List.nodup_append', List.nodup_cons, List.disjoint_cons_right] at distinct
  rw [order', List.nodup_append', List.nodup_cons, List.disjoint_cons_right] at distinct'
  rcases distinct with ⟨_, ⟨leftOnce, _⟩, leftFront, restFront⟩
  rcases distinct' with ⟨_, ⟨rightOnce, _⟩, rightFront, restFront'⟩
  have laterFront : later ∉ front := fun inside => restFront inside behind
  have laterFront' : later' ∉ front := fun inside => restFront' inside behind'
  have isLater : later ≠ left := fun same => leftOnce (same ▸ behind)
  have isLater' : right ≠ later' := fun same => rightOnce (same ▸ behind')
  rcases exists_order_numbers leftFront rightFront laterFront laterFront' apart isLater isLater'
    differ with ⟨value, numbers, hundred, leftValue, laterValue', rightValue, laterValue⟩
  have far : ∀ id ∈ front, value id = 100 := fun id inside => (hundred id).mpr inside
  rcases line.renumbered reached value (fun id => Iff.rfl) with
    ⟨after, done, kept, same, draws, vectors⟩
  rcases line.renumbered reached' value (fun id => (live id).symm) with
    ⟨after', done', kept', same', draws', vectors'⟩
  have covered : ∀ id, ∃ drawn ∈ after.drawnIds host, value drawn = value id := by
    intro id
    rw [draws, order]
    rcases numbers id with zero | two | far_
    · exact ⟨left, by simp, by rw [leftValue, zero]⟩
    · exact ⟨later, by simp [behind], by rw [laterValue, two]⟩
    · exact ⟨id, List.mem_append_left _ ((hundred id).mp far_), rfl⟩
  have covered' : ∀ id, ∃ drawn ∈ after'.drawnIds host, value drawn = value id := by
    intro id
    rw [draws', order']
    rcases numbers id with zero | two | far_
    · exact ⟨later', by simp [behind'], by rw [laterValue', zero]⟩
    · exact ⟨right, by simp, by rw [rightValue, two]⟩
    · exact ⟨id, List.mem_append_left _ ((hundred id).mp far_), rfl⟩
  rcases line.answers_first kept vectors (fun id _ => numbers id) (fun id _ => covered id)
    (draws.trans order) far (by rw [leftValue]; decide) with ⟨candidate, final, searched, number⟩
  rcases line.answers_first kept' vectors' (fun id _ => numbers id) (fun id _ => covered' id)
    (draws'.trans order') far (by rw [rightValue]; decide) with
    ⟨candidate', final', searched', number'⟩
  intro alike
  have equal := alike.found (line.overwrites reached value) done done' searched searched'
  rw [List.singleton_inj.mp equal, number', leftValue, rightValue] at number
  exact absurd number (by decide)

/-- The common record at four, `right` at ten, those in front at a hundred, the rest at zero. -/
theorem exists_member_numbers {front : List RecordId} {left right common : RecordId}
    (apart : left ≠ right) (leftCommon : left ≠ common) (leftFront : left ∉ front)
    (rightCommon : right ≠ common) (rightFront : right ∉ front) (commonFront : common ∉ front) :
    ∃ value : RecordId → Nat,
      (∀ id, value id = 0 ∨ value id = 4 ∨ value id = 10 ∨ value id = 100) ∧
      (∀ id, value id = 4 ↔ id = common) ∧ (∀ id, value id = 10 ↔ id = right) ∧
      (∀ id, value id = 100 ↔ id ∈ front) ∧ value left = 0 := by
  rcases (⟨_, fun _ => rfl⟩ : ∃ value : RecordId → Nat, ∀ id, value id =
      if id = common then 4 else if id = right then 10 else if id ∈ front then 100 else 0) with
    ⟨value, isValue⟩
  refine ⟨value, ?_, ?_, ?_, ?_, ?_⟩
  · intro id
    rw [isValue]
    split_ifs <;> omega
  · intro id
    rw [isValue]
    split_ifs with here
    · exact ⟨fun _ => here, fun _ => rfl⟩
    all_goals exact ⟨fun same => absurd same (by decide), fun same => absurd same here⟩
  · intro id
    rw [isValue]
    split_ifs with here there
    · exact ⟨fun same => absurd same (by decide), fun same => absurd (same ▸ here) rightCommon⟩
    · exact ⟨fun _ => there, fun _ => rfl⟩
    all_goals exact ⟨fun same => absurd same (by decide), fun same => absurd same there⟩
  · intro id
    rw [isValue]
    split_ifs with here there inside
    · exact ⟨fun same => absurd same (by decide), fun held => absurd (here ▸ held) commonFront⟩
    · exact ⟨fun same => absurd same (by decide), fun held => absurd (there ▸ held) rightFront⟩
    · exact ⟨fun _ => inside, fun _ => rfl⟩
    · exact ⟨fun same => absurd same (by decide), fun held => absurd held inside⟩
  · rw [isValue, if_neg leftCommon, if_neg apart, if_neg leftFront]

include line in
/-- Two that draw the same records but for one: that one at zero, the other's at ten
and a common one at four, the four and the ten fall together where the zero is drawn. -/
theorem Line.apart_by_member (orderFree : OrderFree host)
    (reached : Reached host dimensionality metric params one)
    (reached' : Reached host dimensionality metric params other)
    (live : ∀ id, id ∈ other.liveIds ↔ id ∈ one.liveIds)
    {left right common : RecordId} {front : List RecordId}
    (permuted : (one.drawnIds host).Perm (left :: common :: front))
    (permuted' : (other.drawnIds host).Perm (right :: common :: front)) (apart : left ≠ right) :
    ¬ Interchangeable host one other := by
  have draws : ∀ id, id ∈ one.drawnIds host ↔ id = left ∨ id = common ∨ id ∈ front := by
    intro id
    rw [permuted.mem_iff, List.mem_cons, List.mem_cons]
  have draws' : ∀ id, id ∈ other.drawnIds host ↔ id = right ∨ id = common ∨ id ∈ front := by
    intro id
    rw [permuted'.mem_iff, List.mem_cons, List.mem_cons]
  have distinct := permuted.nodup_iff.mp (Split.drawnIds_nodup (reached.kept host).1.wellFormed)
  have distinct' := permuted'.nodup_iff.mp (Split.drawnIds_nodup (reached'.kept host).1.wellFormed)
  rw [List.nodup_cons, List.nodup_cons, List.mem_cons, not_or] at distinct distinct'
  rcases distinct with ⟨⟨leftCommon, leftFront⟩, commonFront, _⟩
  rcases distinct' with ⟨⟨rightCommon, rightFront⟩, _⟩
  rcases exists_member_numbers apart leftCommon leftFront rightCommon rightFront commonFront with
    ⟨value, numbers, isFour, isTen, hundred, leftValue⟩
  have zerosLeft : ∀ drawn ∈ other.drawnIds host, value drawn ≠ 0 := by
    intro drawn isDrawn zero
    rcases (draws' drawn).mp isDrawn with same | same | inside
    · exact absurd (zero.symm.trans ((isTen drawn).mpr same)) (by decide)
    · exact absurd (zero.symm.trans ((isFour drawn).mpr same)) (by decide)
    · exact absurd (zero.symm.trans ((hundred drawn).mpr inside)) (by decide)
  rcases line.renumbered reached value (fun id => Iff.rfl) with
    ⟨after, done, kept, same, drawn, vectors⟩
  rcases line.renumbered reached' value (fun id => (live id).symm) with
    ⟨after', done', kept', same', drawn', vectors'⟩
  have rightLive : right ∈ other.liveIds := Split.drawn_live ((draws' right).mpr (Or.inl rfl))
  have leftLive : left ∈ one.liveIds := Split.drawn_live ((draws left).mpr (Or.inl rfl))
  have merges : ∀ index : IvfIndex,
      (∀ entry ∈ index.liveEntries, entry.vector = line.point (value entry.id)) →
      (∀ id, id = common ∨ id ∈ front → id ∈ index.drawnIds host) → right ∈ index.liveIds →
        Merged line index value right common := by
    intro index vectors drawn alive
    exact ⟨vectors, fun id _ => numbers id, fun id _ => isFour id, fun id _ => isTen id,
      drawn common (Or.inl rfl), alive, fun id _ far => drawn id (Or.inr ((hundred id).mp far))⟩
  have merged := merges after vectors (fun id held => by rw [drawn, draws]; exact Or.inr held)
    (by rw [same]; exact (live right).mp rightLive)
  have merged' := merges after' vectors' (fun id held => by rw [drawn', draws']; exact Or.inr held)
    (by rw [same']; exact rightLive)
  rcases merged.answers_two orderFree kept (by rw [drawn, draws]; exact Or.inl rfl) leftValue (by
      rw [drawn, draws]
      rintro (same | same | inside)
      · exact apart same.symm
      · exact rightCommon same
      · exact rightFront inside) with ⟨two, final, searched, length⟩
  rcases merged'.answers_one orderFree kept' (by rw [same']; exact (live left).mpr leftLive)
    leftValue (by rw [drawn']; exact zerosLeft) (by rw [drawn', draws']; exact Or.inl rfl) with
    ⟨single, final', searched', length'⟩
  intro alike
  rw [alike.found (line.overwrites reached value) done done' searched searched', length'] at length
  exact absurd length (by decide)

omit [LinearOrder D] [OrderTop D] in
theorem length_drawnIds (index : IvfIndex) : (index.drawnIds host).length =
    min (index.cellCount index.liveEntries.length) index.liveEntries.length := by
  rw [drawnIds, List.length_map, length_drawn]

theorem cellCount_le (index : IvfIndex) (live : Nat) : index.cellCount live ≤ max 1 live := by
  unfold cellCount
  simp only
  split_ifs <;> omega

include line in
theorem Line.told_apart (orderFree : OrderFree host)
    (reached : Reached host dimensionality metric params one)
    (reached' : Reached host dimensionality metric params other)
    (live : ∀ id, id ∈ other.liveIds ↔ id ∈ one.liveIds)
    (length : (one.drawnIds host).length = (other.drawnIds host).length)
    (many : 1 < one.cellCount one.liveEntries.length)
    (differs : one.drawnIds host ≠ other.drawnIds host) : ¬ Interchangeable host one other := by
  rcases first_difference length differs with
    ⟨front, left, right, rest, rest', order, order', apart, lengths⟩
  by_cases further : ∃ later ∈ rest, ∃ later' ∈ rest', later ≠ later'
  · rcases further with ⟨later, behind, later', behind', differ⟩
    exact line.apart_by_order reached reached' live order order' apart behind behind' differ
  · have alike : ∀ later ∈ rest, ∀ later' ∈ rest', later = later' := by
      intro later behind later' behind'
      by_contra differ
      exact further ⟨later, behind, later', behind', differ⟩
    cases rest with
    | nil =>
        -- The last record drawn differs, and there is one before it.
        have none : rest' = [] := List.length_eq_zero_iff.mp lengths.symm
        have atMost := cellCount_le one one.liveEntries.length
        have count := @length_drawnIds D host one
        rw [order, List.length_append, List.length_singleton] at count
        cases front with
        | nil =>
            rw [List.length_nil] at count
            omega
        | cons common front =>
            rw [none] at order'
            have permuted : (one.drawnIds host).Perm (left :: common :: front) := by
              rw [order]
              exact List.perm_append_singleton left (common :: front)
            have permuted' : (other.drawnIds host).Perm (right :: common :: front) := by
              rw [order']
              exact List.perm_append_singleton right (common :: front)
            exact line.apart_by_member orderFree reached reached' live permuted permuted' apart
    | cons common more =>
        cases rest' with
        | nil => cases lengths
        | cons common' more' =>
            have same := alike common List.mem_cons_self common' List.mem_cons_self
            have single : ∀ {index : IvfIndex} {first : RecordId} {tail : List RecordId},
                Reached host dimensionality metric params index →
                index.drawnIds host = front ++ first :: common :: tail →
                (∀ later ∈ tail, later = common) →
                (index.drawnIds host).Perm (first :: common :: front) := by
              intro index first tail reached isDrawn only
              have distinct := @Split.drawnIds_nodup D host _ (reached.kept host).1.wellFormed
              rw [isDrawn, List.nodup_append', List.nodup_cons, List.nodup_cons] at distinct
              have none : tail = [] := by
                apply List.eq_nil_iff_forall_not_mem.mpr
                intro later inside
                exact distinct.2.1.2.1 (only later inside ▸ inside)
              rw [isDrawn, none]
              exact List.perm_middle.trans ((List.perm_append_singleton common front).cons first)
            rw [← same] at order' alike
            have permuted := single reached order (fun later inside =>
              alike later (List.mem_cons_of_mem _ inside) common List.mem_cons_self)
            have permuted' := single reached' order' (fun later inside =>
              (alike common List.mem_cons_self later (List.mem_cons_of_mem _ inside)).symm)
            exact line.apart_by_member orderFree reached reached' live permuted permuted' apart

end Choices

section Agreement

variable {D : Type} [LinearOrder D] [OrderTop D] (host : Host D) {dimensionality : UInt32}
  {metric : DistanceMetric} {params : IndexParams} {one other index : IvfIndex}

omit [LinearOrder D] [OrderTop D] in
theorem drawn_vectors (wellFormed : index.WellFormed) :
    (index.drawn host).map IvfEntry.vector =
      (index.drawnIds host).map (fun id => (index.roster.vectorOf id).getD []) := by
  rw [drawnIds, List.map_map]
  apply List.map_congr_left
  intro entry member
  rcases List.mem_filter.mp (mem_drawn host member) with ⟨inside, alive⟩
  have known : index.roster.vectorOf entry.id = some entry.vector :=
    (wellFormed.sound.vectorOf_iff entry.id _).mpr ⟨entry, inside, rfl, by simpa using alive, rfl⟩
  rw [Function.comp_apply, known]
  rfl

theorem search_same (orderFree : OrderFree host) (kept : one.Kept host) (kept' : other.Kept host)
    (settings : one.settings = other.settings)
    (same : ∀ id, one.roster.vectorOf id = other.roster.vectorOf id) (q : List F32) (k : UInt32)
    (query : QueryParams)
    (alike : one.cellCount one.liveEntries.length ≤ max 1 query.nprobe.toNat ∨
      (one.drawn host).map IvfEntry.vector = (other.drawn host).map IvfEntry.vector) :
    SameAnswer host one other q k query := by
  rcases alike with every | start
  · exact search_same_exhaustive host kept kept' settings same q k every
  · exact search_same_start host orderFree kept kept'
      (congrArg (fun parts => parts.2.1) settings) same start q k query

theorem interchangeable_of_drawn (orderFree : OrderFree host)
    (reached : Reached host dimensionality metric params one)
    (reached' : Reached host dimensionality metric params other)
    (same : ∀ id, one.roster.vectorOf id = other.roster.vectorOf id)
    (live : ∀ id, id ∈ other.liveIds ↔ id ∈ one.liveIds)
    (alike : one.cellCount one.liveEntries.length ≤ 1 ∨
      one.drawnIds host = other.drawnIds host) : Interchangeable host one other := by
  intro records one' other' valid done done' q k query
  rcases reached.kept host with ⟨kept, settings⟩
  rcases reached'.kept host with ⟨kept', settings'⟩
  have valid' : other.Overwrites records := by
    intro record member
    have sized : other.dimensionality = one.dimensionality :=
      congrArg Prod.fst (settings'.trans settings.symm)
    rw [live, sized]
    exact valid record member
  rcases reached.overwritten valid with ⟨after, isAfter, reachedAfter, ids, table⟩
  rcases reached'.overwritten valid' with ⟨after', isAfter', reachedAfter', ids', table'⟩
  have isOne := Except.ok.inj (done.symm.trans isAfter)
  have isOther := Except.ok.inj (done'.symm.trans isAfter')
  rw [isOne, isOther]
  rcases reachedAfter.kept host with ⟨keptAfter, settingsAfter⟩
  rcases reachedAfter'.kept host with ⟨keptAfter', settingsAfter'⟩
  have tables : ∀ id, after.roster.vectorOf id = after'.roster.vectorOf id := by
    intro id
    rw [table, table', funext same]
  apply search_same host orderFree keptAfter keptAfter' (settingsAfter.trans settingsAfter'.symm)
    tables
  rcases alike with single | drawn
  · left
    have nlist : after.requestedNlist = one.requestedNlist :=
      congrArg (fun parts => parts.2.2.1) (settingsAfter.trans settings.symm)
    have length : after.liveEntries.length = one.liveEntries.length := by
      have count := congrArg List.length ids
      rw [liveIds, liveIds, List.length_map, List.length_map] at count
      exact count
    rw [cellCount, nlist, length]
    exact le_max_of_le_left single
  · right
    rw [drawn_vectors host keptAfter.wellFormed, drawn_vectors host keptAfter'.wellFormed,
      drawnIds_congr (settingsAfter.trans settings.symm) ids,
      drawnIds_congr (settingsAfter'.trans settings'.symm) ids', drawn, funext tables]

/-- A search agrees when it probes every cell or the same vectors are drawn; and two
slot orders go together, with whatever vectors, exactly when the same records are
drawn or all go into one cell. -/
theorem search_agrees_iff (orderFree : OrderFree host)
    (reached : Reached host dimensionality metric params one)
    (reached' : Reached host dimensionality metric params other)
    (same : ∀ id, one.roster.vectorOf id = other.roster.vectorOf id) :
    (∀ q k query, one.cellCount one.liveEntries.length ≤ max 1 query.nprobe.toNat ∨
        (one.drawn host).map IvfEntry.vector = (other.drawn host).map IvfEntry.vector →
      SameAnswer host one other q k query) ∧
    (Nonempty (Line host dimensionality) → (Interchangeable host one other ↔
      one.cellCount one.liveEntries.length ≤ 1 ∨ one.drawnIds host = other.drawnIds host)) := by
  rcases reached.kept host with ⟨kept, settings⟩
  rcases reached'.kept host with ⟨kept', settings'⟩
  have both := settings.trans settings'.symm
  have live : ∀ id, id ∈ other.liveIds ↔ id ∈ one.liveIds := by
    intro id
    rw [mem_liveIds_iff kept.wellFormed, mem_liveIds_iff kept'.wellFormed, same]
  have length : (one.drawnIds host).length = (other.drawnIds host).length := by
    have nlist : one.requestedNlist = other.requestedNlist :=
      congrArg (fun parts => parts.2.2.1) both
    have count := (liveEntries_perm kept.wellFormed kept'.wellFormed same).length_eq
    rw [length_drawnIds, length_drawnIds, cellCount, cellCount, nlist, count]
  refine ⟨fun q k query => search_same host orderFree kept kept' both same q k query, ?_⟩
  rintro ⟨line⟩
  constructor
  · intro alike
    by_contra neither
    rw [not_or, not_le] at neither
    exact line.told_apart orderFree reached reached' live length neither.1 neither.2 alike
  · exact interchangeable_of_drawn host orderFree reached reached' same live

end Agreement

theorem vectorsAfter_perm (vectors : RecordId → Option (List F32))
    {records records' : List (RecordId × List F32)} (permuted : records.Perm records')
    (distinct : (records.map Prod.fst).Nodup) :
    vectorsAfter vectors records = vectorsAfter vectors records' := by
  unfold vectorsAfter
  apply permuted.foldl_eq'
  intro first member second member' held
  funext id
  simp only
  by_cases here : id = first.1
  · by_cases there : id = second.1
    · have same := List.inj_on_of_nodup_map distinct member member' (here.symm.trans there)
      rw [same]
    · rw [if_neg there, if_pos here, if_pos here]
  · by_cases there : id = second.1
    · rw [if_pos there, if_neg here, if_pos there]
    · rw [if_neg there, if_neg here, if_neg here, if_neg there]

section OnTheLine

open ExactLine

theorem squaredL2_point (from_ to_ : F32) : meansHost.squaredL2 [from_] [to_] =
    (((units from_ - units to_).natAbs * (units from_ - units to_).natAbs : Nat) : WithTop Nat) :=
  rfl

theorem squaredL2_lt (from_ first second : F32) :
    meansHost.squaredL2 [from_] [first] < meansHost.squaredL2 [from_] [second] ↔
      (units from_ - units first).natAbs < (units from_ - units second).natAbs := by
  rw [squaredL2_point, squaredL2_point]
  exact Nat.cast_lt.trans Nat.mul_self_lt_mul_self_iff

theorem squaredL2_le (from_ first second : F32) :
    meansHost.squaredL2 [from_] [first] ≤ meansHost.squaredL2 [from_] [second] ↔
      (units from_ - units first).natAbs ≤ (units from_ - units second).natAbs := by
  rw [squaredL2_point, squaredL2_point]
  exact Nat.cast_le.trans Nat.mul_self_le_mul_self_iff

theorem units_whole : ∀ number ≤ 100, units (whole number) = (number * 2 ^ 149 : Nat) := by
  have all : ∀ number < 101, units (whole number) = (number * 2 ^ 149 : Nat) := by decide +kernel
  intro number small
  exact all number (by omega)

theorem mean_replicate {number : Nat} (small : number ≤ 100) (count : Nat) :
    mean (List.replicate (count + 1) [whole number]) = [whole number] := by
  rw [mean, List.map_replicate, List.sum_replicate, List.length_replicate, List.headD_cons,
    units_whole number small, Int.toNat_natCast, smul_eq_mul, Nat.mul_div_cancel_left _
      (Nat.succ_pos count)]
  rfl

theorem units_between {number low high : Nat} (above : low ≤ number) (below : number ≤ high)
    (lowFloat : ∃ code, FloatWidths.magnitude 23 code = low)
    (highFloat : ∃ code, FloatWidths.magnitude 23 code = high)
    (small : FloatWidths.encode 23 0 number < 2 ^ 31) :
    (low : Int) ≤ units (ofUnits number) ∧ units (ofUnits number) ≤ high := by
  rcases lowFloat with ⟨code, isLow⟩
  rcases highFloat with ⟨code', isHigh⟩
  have near := FloatWidths.encode_nearest 23 0 number code
  have near' := FloatWidths.encode_nearest 23 0 number code'
  rw [Nat.pow_zero, Nat.mul_one, Nat.mul_one] at near near'
  rw [isLow] at near
  rw [isHigh] at near'
  rw [units_ofUnits small]
  omega

theorem mean_low (count : Nat) : ∃ low, mean ([whole 4] :: List.replicate (count + 1) [whole 0]) =
    [low] ∧ 0 ≤ units low ∧ units low ≤ (4 * 2 ^ 149 : Nat) := by
  have sum : (([whole 4] :: List.replicate (count + 1) [whole 0]).map
      (fun vec => (units (vec.headD 0)).toNat)).sum = 4 * 2 ^ 149 := by
    rw [List.map_cons, List.map_replicate, List.sum_cons, List.sum_replicate, List.headD_cons,
      List.headD_cons, units_whole 4 (by decide), units_whole 0 (by decide)]
    simp
  have atMost : 4 * 2 ^ 149 / (count + 2) ≤ 4 * 2 ^ 149 := Nat.div_le_self _ _
  have small : FloatWidths.encode 23 0 (4 * 2 ^ 149 / (count + 2)) < 2 ^ 31 := by
    have bound := FloatWidths.encode_lt 23 0 (show 4 * 2 ^ 149 / (count + 2) < 2 ^ 152 by omega)
    omega
  have between := units_between (Nat.zero_le _) atMost ⟨0, rfl⟩
    ⟨FloatWidths.encode 23 0 (4 * 2 ^ 149), by decide +kernel⟩ small
  refine ⟨ofUnits (4 * 2 ^ 149 / (count + 2)), ?_, between.1, between.2⟩
  rw [mean, sum, List.length_cons, List.length_replicate]

def wholeLine : Line meansHost 1 where
  point number := [whole number]
  length _ := rfl
  nearer from_ a first b second c := by
    rw [squaredL2_lt, units_whole from_ a, units_whole first b, units_whole second c]
    unfold gap
    omega
  copies number small count := mean_replicate small count
  middle := by decide +kernel
  between count := by
    rcases mean_low count with ⟨low, isLow, positive, atMost⟩
    refine ⟨[low], isLow, ?_, ?_, ?_, ?_⟩
    · rw [squaredL2_le, units_whole 0 (by decide), units_whole 4 (by decide)]
      omega
    · rw [squaredL2_le, units_whole 4 (by decide), units_whole 0 (by decide)]
      omega
    · rw [squaredL2_le, units_whole 10 (by decide), units_whole 4 (by decide)]
      omega
    · rw [squaredL2_le, units_whole 100 (by decide), units_whole 4 (by decide)]
      omega

/-- From 0 and 4 the cells become {0} and {4, 10}, from 4 and 10 they become {0, 4}
and {10}. -/
theorem search_depends_on_order :
    OrderFree meansHost ∧ ∃ one other candidates candidates' after after',
      Reached meansHost 1 .euclidean { nlist := 2 } one ∧
      Reached meansHost 1 .euclidean { nlist := 2 } other ∧
      (∀ id, one.roster.vectorOf id = other.roster.vectorOf id) ∧
      one.search meansHost [whole 5] 2 {} = .ok (candidates, after) ∧
      other.search meansHost [whole 5] 2 {} = .ok (candidates', after') ∧
      candidates ≠ candidates' := by
  refine ⟨fun _ _ permuted => mean_perm permuted, ?_⟩
  have start := @Reached.new _ _ meansHost 1 .euclidean { nlist := 2 }
  rcases addAll_reached start threePoints (by decide +kernel) with ⟨one, done, reached, vectors⟩
  rcases addAll_reached start (threePoints.rotate 1) (by decide +kernel) with
    ⟨other, done', reached', vectors'⟩
  have told : ((new 1 .euclidean { nlist := 2 }).addAll threePoints).toOption.any (fun one =>
      ((new 1 .euclidean { nlist := 2 }).addAll (threePoints.rotate 1)).toOption.any (fun other =>
        (one.search meansHost [whole 5] 2 {}).toOption.any (fun first =>
          (other.search meansHost [whole 5] 2 {}).toOption.any (fun second =>
            decide (first.1 ≠ second.1))))) = true := by
    decide +kernel
  rw [done, done'] at told
  rcases ok_of_any (show (one.search meansHost [whole 5] 2 {}).toOption.any _ = true from told)
    with ⟨first, searched, told⟩
  rcases ok_of_any told with ⟨second, searched', differs⟩
  refine ⟨one, other, first.1, second.1, first.2, second.2, reached, reached', ?_, searched,
    searched', of_decide_eq_true differs⟩
  intro id
  rw [vectors, vectors', vectorsAfter_perm _ (List.rotate_perm threePoints 1).symm (by decide)]

/-- Four points: the last two may change places, the first two may not. -/
def fourPoints : List (RecordId × List F32) :=
  threePoints ++ [([4], [whole 20])]

theorem search_agrees_iff_of_four_points :
    ∃ one swapped turned : IvfIndex, one.liveIds = [[1], [2], [3], [4]] ∧
      swapped.liveIds = [[1], [2], [4], [3]] ∧ turned.liveIds = [[2], [3], [4], [1]] ∧
      Interchangeable meansHost one swapped ∧ ¬ Interchangeable meansHost one turned ∧
      ∀ q k, SameAnswer meansHost one turned q k { nprobe := 2 } := by
  have start := @Reached.new _ _ meansHost 1 .euclidean { nlist := 2 }
  have swap : fourPoints.Perm (threePoints.take 2 ++ [([4], [whole 20]), ([3], [whole 10])]) :=
    (List.Perm.swap _ _ []).append_left (threePoints.take 2)
  rcases addAll_reached start fourPoints (by decide +kernel) with ⟨one, done, reached, vectors⟩
  rcases addAll_reached start (threePoints.take 2 ++ [([4], [whole 20]), ([3], [whole 10])])
    (by decide +kernel) with ⟨swapped, done', reached', vectors'⟩
  rcases addAll_reached start (fourPoints.rotate 1) (by decide +kernel) with
    ⟨turned, done'', reached'', vectors''⟩
  have told : ((new 1 .euclidean { nlist := 2 }).addAll fourPoints).toOption.any (fun index =>
      decide (index.liveIds = [[1], [2], [3], [4]] ∧ index.drawnIds meansHost = [[1], [2]] ∧
        index.cellCount index.liveEntries.length = 2)) = true := by decide +kernel
  have told' : ((new 1 .euclidean { nlist := 2 }).addAll
      (threePoints.take 2 ++ [([4], [whole 20]), ([3], [whole 10])])).toOption.any (fun index =>
        decide (index.liveIds = [[1], [2], [4], [3]] ∧ index.drawnIds meansHost = [[1], [2]])) =
      true := by decide +kernel
  have told'' : ((new 1 .euclidean { nlist := 2 }).addAll
      (fourPoints.rotate 1)).toOption.any (fun index =>
        decide (index.liveIds = [[2], [3], [4], [1]] ∧ index.drawnIds meansHost = [[2], [3]])) =
      true := by decide +kernel
  rw [done] at told
  rw [done'] at told'
  rw [done''] at told''
  rcases of_decide_eq_true told with ⟨ids, drawn, cells⟩
  rcases of_decide_eq_true told' with ⟨ids', drawn'⟩
  rcases of_decide_eq_true told'' with ⟨ids'', drawn''⟩
  have orderFree : OrderFree meansHost := fun _ _ permuted => mean_perm permuted
  have swaps := (search_agrees_iff meansHost orderFree reached reached' (by
    intro id
    rw [vectors, vectors', vectorsAfter_perm _ swap (by decide)])).2 ⟨wholeLine⟩
  have turns := search_agrees_iff meansHost orderFree reached reached'' (by
    intro id
    rw [vectors, vectors'', vectorsAfter_perm _ (List.rotate_perm fourPoints 1).symm (by decide)])
  refine ⟨one, swapped, turned, ids, ids', ids'', swaps.mpr (Or.inr (drawn.trans drawn'.symm)), ?_,
    fun q k => turns.1 q k { nprobe := 2 } (Or.inl (by rw [cells]; decide))⟩
  rw [turns.2 ⟨wholeLine⟩, cells, drawn, drawn'']
  decide

end OnTheLine

end VectorVault.IvfIndex
