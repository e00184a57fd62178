import VectorVault.Collection
import VectorVault.ExactLine
import VectorVault.Library.FloatValue

/-! The distance calculator over exact sums, and when a query can sort by it.

The accumulators are doubles, whose range no sum of these products leaves. Their
narrowing to float32 can overflow, and then a cosine divides infinities. -/

namespace VectorVault

open FloatOrder FloatValue

def F32.number (component : F32) : ℚ := ExactLine.units component / 2 ^ 149

namespace DistanceCalculator

def squares (a b : List F32) : ℚ :=
  (a.zip b).foldl (fun sum pair =>
    let diff := pair.1.number - pair.2.number
    sum + diff * diff) 0

def products (a b : List F32) : ℚ :=
  (a.zip b).foldl (fun sum pair => sum + pair.1.number * pair.2.number) 0

def scalarL2Squared (a b : List F32) : FloatValue := narrow (squares a b)

def scalarDot (a b : List F32) : FloatValue := narrow (products a b)

def clamp (cosineDistance : FloatValue) : FloatValue :=
  if lt cosineDistance (finite 0) then finite 0
  else if lt (finite 2) cosineDistance then finite 2
  else cosineDistance

def distance (metric : DistanceMetric) (a b : List F32) : Result FloatValue :=
  if a.length ≠ b.length then
    .error ⟨.dimensionMismatch,
      text "distance requires vectors of equal length (got " ++ decimal a.length ++
        text " and " ++ decimal b.length ++ text ")"⟩
  else
    match metric with
    | .euclidean => .ok (sqrt (scalarL2Squared a b))
    | .dotProduct => .ok (scalarDot a b)
    | .cosine =>
        let normASq := scalarDot a a
        let normBSq := scalarDot b b
        if eq normASq (finite 0) ∨ eq normBSq (finite 0) then
          .error ⟨.undefinedDistance,
            text "cosine distance is undefined for a zero-norm vector"⟩
        else
          let dotAb := scalarDot a b
          let denom := mul (sqrt normASq) (sqrt normBSq)
          .ok (clamp (sub (finite 1) (div dotAb denom)))

def host (rest : Host FloatValue) : Host FloatValue := { rest with distance := distance }

section Sums

theorem foldl_add (term : F32 × F32 → ℚ) (pairs : List (F32 × F32)) (start : ℚ) :
    pairs.foldl (fun sum pair => sum + term pair) start = start + (pairs.map term).sum := by
  induction pairs generalizing start with
  | nil => simp
  | cons pair rest ih =>
      rw [List.foldl_cons, ih, List.map_cons, List.sum_cons, add_assoc]

theorem products_eq (a b : List F32) :
    products a b = ((a.zip b).map (fun pair => pair.1.number * pair.2.number)).sum := by
  rw [products, foldl_add, zero_add]

theorem squares_eq (a b : List F32) :
    squares a b = ((a.zip b).map (fun pair => (pair.1.number - pair.2.number) *
      (pair.1.number - pair.2.number))).sum := by
  have sum := foldl_add (fun pair => (pair.1.number - pair.2.number) *
    (pair.1.number - pair.2.number)) (a.zip b) 0
  rw [zero_add] at sum
  exact sum

theorem squares_nonneg (a b : List F32) : 0 ≤ squares a b := by
  rw [squares_eq]
  apply List.sum_nonneg
  intro term member
  obtain ⟨pair, _, same⟩ := List.mem_map.mp member
  rw [← same]
  exact mul_self_nonneg _

theorem cauchy_step {sum first second x y : ℚ} (bound : sum * sum ≤ first * second)
    (isFirst : 0 ≤ first) (isSecond : 0 ≤ second) :
    (x * y + sum) * (x * y + sum) ≤ (x * x + first) * (y * y + second) := by
  have mixed : 2 * (sum * (x * y)) ≤ first * (y * y) + second * (x * x) := by
    have nonneg : 0 ≤ first * (y * y) + second * (x * x) :=
      add_nonneg (mul_nonneg isFirst (mul_self_nonneg y)) (mul_nonneg isSecond (mul_self_nonneg x))
    apply le_of_abs_le
    apply abs_le_of_sq_le_sq _ nonneg
    calc (2 * (sum * (x * y))) ^ 2 = 4 * (sum * sum) * (x * y) ^ 2 := by ring
      _ ≤ 4 * (first * second) * (x * y) ^ 2 := by gcongr
      _ ≤ (first * (y * y) + second * (x * x)) ^ 2 := by
          nlinarith [sq_nonneg (first * (y * y) - second * (x * x))]
  nlinarith

theorem products_le (a b : List F32) (sized : a.length = b.length) :
    0 ≤ products a a ∧ 0 ≤ products b b ∧
      products a b * products a b ≤ products a a * products b b := by
  simp only [products_eq]
  induction a generalizing b with
  | nil =>
      cases b with
      | nil => simp
      | cons y rest => cases sized
  | cons x tail ih =>
      cases b with
      | nil => cases sized
      | cons y rest =>
          obtain ⟨isFirst, isSecond, bound⟩ := ih rest (Nat.succ.inj sized)
          simp only [List.zip_cons_cons, List.map_cons, List.sum_cons]
          exact ⟨add_nonneg (mul_self_nonneg _) isFirst, add_nonneg (mul_self_nonneg _) isSecond,
            cauchy_step bound isFirst isSecond⟩

theorem number_le {component : F32} (finite_ : component.isFinite = true) :
    |component.number| ≤ 2 ^ 128 := by
  have exponent : ((component >>> 23) &&& 0xFF).toNat ≤ 254 := by
    have top : ((component >>> 23) &&& 0xFF).toNat ≤ 255 := by
      rw [UInt32.toNat_and]
      exact Nat.and_le_right
    have apart : ((component >>> 23) &&& 0xFF).toNat ≠ 255 := by
      intro same
      have equal : (component >>> 23) &&& 0xFF = 0xFF := UInt32.toNat_inj.mp same
      rw [F32.isFinite, equal] at finite_
      cases finite_
    omega
  have fraction : (component &&& 0x7FFFFF).toNat ≤ 2 ^ 23 := by
    rw [UInt32.toNat_and]
    exact Nat.and_le_right.trans (by decide)
  have magnitude : (if ((component >>> 23) &&& 0xFF).toNat = 0 then (component &&& 0x7FFFFF).toNat
      else (2 ^ 23 + (component &&& 0x7FFFFF).toNat) *
        2 ^ (((component >>> 23) &&& 0xFF).toNat - 1)) ≤ 2 ^ 24 * 2 ^ 253 := by
    split
    · exact fraction.trans (by decide)
    · exact Nat.mul_le_mul (by omega) (Nat.pow_le_pow_right (by decide) (by omega))
  have units : |(ExactLine.units component : ℚ)| ≤ 2 ^ 24 * 2 ^ 253 := by
    simp only [ExactLine.units]
    split
    · rw [Int.cast_neg, abs_neg, Int.cast_natCast, Nat.abs_cast]
      exact_mod_cast magnitude
    · rw [Int.cast_natCast, Nat.abs_cast]
      exact_mod_cast magnitude
  rw [F32.number, abs_div, abs_of_pos (show (0 : ℚ) < 2 ^ 149 by positivity),
    div_le_iff₀ (by positivity)]
  calc |(ExactLine.units component : ℚ)|
      ≤ 2 ^ 24 * 2 ^ 253 := units
    _ = 2 ^ 128 * 2 ^ 149 := by rw [← pow_add, ← pow_add]

theorem accumulators_le {a b : List F32} (finiteA : ∀ component ∈ a, component.isFinite = true)
    (finiteB : ∀ component ∈ b, component.isFinite = true) (short : a.length ≤ 65536) :
    |products a b| ≤ 2 ^ 272 ∧ squares a b ≤ 2 ^ 274 := by
  have few : ((a.zip b).length : ℚ) ≤ 2 ^ 16 := by
    rw [List.length_zip]
    exact_mod_cast (Nat.min_le_left _ _).trans short
  have total : ∀ (term : F32 × F32 → ℚ) (bound : ℚ), 0 ≤ bound →
      (∀ pair ∈ a.zip b, |term pair| ≤ bound) → |((a.zip b).map term).sum| ≤ 2 ^ 16 * bound := by
    intro term bound nonneg each
    have low := List.card_nsmul_le_sum ((a.zip b).map term) (-bound) (by
      intro value member
      obtain ⟨pair, inside, same⟩ := List.mem_map.mp member
      rw [← same]
      exact (abs_le.mp (each pair inside)).1)
    have high := List.sum_le_card_nsmul ((a.zip b).map term) bound (by
      intro value member
      obtain ⟨pair, inside, same⟩ := List.mem_map.mp member
      rw [← same]
      exact (abs_le.mp (each pair inside)).2)
    rw [List.length_map, nsmul_eq_mul] at low high
    have scaled := mul_le_mul_of_nonneg_right few nonneg
    exact abs_le.mpr ⟨by linarith, by linarith⟩
  have numbers : ∀ pair ∈ a.zip b, |pair.1.number| ≤ 2 ^ 128 ∧ |pair.2.number| ≤ 2 ^ 128 := by
    intro pair member
    exact ⟨number_le (finiteA _ (List.of_mem_zip member).1),
      number_le (finiteB _ (List.of_mem_zip member).2)⟩
  constructor
  · have bounded := total (fun pair => pair.1.number * pair.2.number) (2 ^ 128 * 2 ^ 128)
      (by positivity) (by
        intro pair member
        rw [abs_mul]
        exact mul_le_mul (numbers pair member).1 (numbers pair member).2 (abs_nonneg _)
          (by positivity))
    rw [← products_eq, ← pow_add, ← pow_add] at bounded
    exact bounded
  · have bounded := total (fun pair => (pair.1.number - pair.2.number) *
      (pair.1.number - pair.2.number)) (2 ^ 129 * 2 ^ 129) (by positivity) (by
        intro pair member
        have apart : |pair.1.number - pair.2.number| ≤ 2 ^ 129 := by
          have both := numbers pair member
          have triangle := abs_sub pair.1.number pair.2.number
          have doubled : (2 : ℚ) ^ 129 = 2 ^ 128 + 2 ^ 128 := by rw [pow_succ, mul_two]
          linarith
        rw [abs_mul]
        exact mul_le_mul apart apart (abs_nonneg _) (by positivity))
    rw [← squares_eq, ← pow_add, ← pow_add] at bounded
    exact (le_abs_self _).trans bounded

end Sums

section Cosine

theorem clamp_spec {value : FloatValue} (number : value ≠ nan) :
    ∃ clamped, clamp value = finite clamped ∧ 0 ≤ clamped ∧ clamped ≤ 2 := by
  unfold clamp
  split
  · exact ⟨0, rfl, le_rfl, by norm_num⟩
  · next low =>
      split
      · exact ⟨2, rfl, by norm_num, le_rfl⟩
      · next high =>
          cases value with
          | nan => exact absurd rfl number
          | infinite negative =>
              cases negative with
              | false => exact absurd (finite_lt_infinite 2) high
              | true => exact absurd (infinite_lt_finite 0) low
          | finite inside =>
              rw [lt_finite_iff, not_lt] at low high
              exact ⟨inside, rfl, low, high⟩

theorem clamp_nan : clamp nan = nan := by
  simp [clamp, lt, compares]

theorem sqrt_norm {square : ℚ} (positive : 0 < square) :
    (largest < square ∧ sqrt (narrow square) = infinite false) ∨
      (square ≤ largest ∧ ∃ length, sqrt (narrow square) = finite length ∧ 0 < length) := by
  rcases lt_or_ge largest square with beyond | within
  · left
    rw [narrow, if_pos beyond]
    exact ⟨beyond, rfl⟩
  · right
    rw [narrow_of_le (by rw [abs_of_pos positive]; exact within), sqrt, if_neg (not_lt.mpr positive.le)]
    exact ⟨within, root square, rfl, root_pos positive⟩

theorem denominator_spec {first second : ℚ} (isFirst : 0 < first) (isSecond : 0 < second) :
    mul (sqrt (narrow first)) (sqrt (narrow second)) = infinite false ∨
      first ≤ largest ∧ second ≤ largest ∧
        ∃ length, mul (sqrt (narrow first)) (sqrt (narrow second)) = finite length ∧ 0 < length := by
  have unsigned : ∀ {length : ℚ}, 0 < length →
      (if length = 0 then nan else infinite (false != decide (length < 0))) = infinite false := by
    intro length positive
    rw [if_neg positive.ne', decide_eq_false (not_lt.mpr positive.le)]
    rfl
  rcases sqrt_norm isFirst with ⟨_, one⟩ | ⟨low, length, one, positive⟩
  · left
    rcases sqrt_norm isSecond with ⟨_, two⟩ | ⟨_, other, two, positiveToo⟩
    · rw [one, two]
      rfl
    · rw [one, two]
      exact unsigned positiveToo
  · rcases sqrt_norm isSecond with ⟨_, two⟩ | ⟨high, other, two, positiveToo⟩
    · left
      rw [one, two]
      exact unsigned positive
    · have product : 0 < length * other := mul_pos positive positiveToo
      rw [one, two]
      rcases narrow_nonneg product.le with beyond | within
      · exact Or.inl beyond
      · exact Or.inr ⟨low, high, length * other, within, product⟩

theorem sub_ne_nan {number : ℚ} {value : FloatValue} (isNumber : value ≠ nan) :
    sub (finite number) value ≠ nan := by
  cases value with
  | nan => exact absurd rfl isNumber
  | infinite negative => simp [sub]
  | finite other => exact narrow_ne_nan _

theorem quotient_nan_iff {sum first second : ℚ} (isFirst : 0 < first) (isSecond : 0 < second)
    (bound : sum * sum ≤ first * second) :
    div (narrow sum) (mul (sqrt (narrow first)) (sqrt (narrow second))) = nan ↔
      largest < |sum| := by
  rcases lt_or_ge largest |sum| with beyond | within
  · -- By Cauchy and Schwarz one of the norms is beyond the range as well.
    obtain ⟨negative, isSum⟩ := narrow_of_lt beyond
    have isDenominator : mul (sqrt (narrow first)) (sqrt (narrow second)) = infinite false := by
      rcases denominator_spec isFirst isSecond with infinite_ | ⟨low, high, _⟩
      · exact infinite_
      · have product : first * second ≤ largest * largest :=
          mul_le_mul low high isSecond.le largest_pos.le
        have square : largest * largest < |sum| * |sum| :=
          mul_lt_mul'' beyond beyond largest_pos.le largest_pos.le
        rw [abs_mul_abs_self] at square
        linarith
    rw [isSum, isDenominator]
    exact iff_of_true rfl beyond
  · rw [narrow_of_le within]
    have isNumber : div (finite sum) (mul (sqrt (narrow first)) (sqrt (narrow second))) ≠ nan := by
      rcases denominator_spec isFirst isSecond with infinite_ | ⟨_, _, length, isLength, positive⟩
      · rw [infinite_]
        simp [div]
      · rw [isLength, div, if_neg positive.ne']
        exact narrow_ne_nan _
    exact iff_of_false isNumber (not_lt.mpr within)

end Cosine

section Query

variable (rest : Host FloatValue)

def FiniteVector (dimensionality : Nat) : Type :=
  { components : List F32 //
    components.length = dimensionality ∧ ∀ component ∈ components, component.isFinite = true }

/-- What a query compares: the distance, or `+infinity` for an error. -/
def sortKey (metric : DistanceMetric) (a b : List F32) : FloatValue :=
  (host rest).distanceOr metric a b

/-- A number, and for a cosine one of the documented range. -/
def Sortable (metric : DistanceMetric) (key : FloatValue) : Prop :=
  key ≠ nan ∧ (metric = .cosine →
    key = infinite false ∨ ∃ value, key = finite value ∧ 0 ≤ value ∧ value ≤ 2)

/-- The dot product a cosine divides is within the range of float32. -/
def InRange (metric : DistanceMetric) (a b : List F32) : Prop :=
  metric = .cosine → |products a b| ≤ largest

theorem sortKey_eq {metric : DistanceMetric} {a b : List F32} (sized : a.length = b.length) :
    sortKey rest metric a b =
      match metric with
      | .euclidean => sqrt (scalarL2Squared a b)
      | .dotProduct => scalarDot a b
      | .cosine =>
          if eq (scalarDot a a) (finite 0) ∨ eq (scalarDot b b) (finite 0) then infinite false
          else clamp (sub (finite 1)
            (div (scalarDot a b) (mul (sqrt (scalarDot a a)) (sqrt (scalarDot b b))))) := by
  unfold sortKey Host.distanceOr
  cases metric with
  | euclidean => simp only [host, distance, sized, ne_eq, not_true, if_false]
  | dotProduct => simp only [host, distance, sized, ne_eq, not_true, if_false]
  | cosine =>
      simp only [host, distance, sized, ne_eq, not_true, if_false]
      by_cases zero : eq (scalarDot a a) (finite 0) ∨ eq (scalarDot b b) (finite 0)
      · rw [if_pos zero, if_pos zero]
        rfl
      · rw [if_neg zero, if_neg zero]

theorem zero_norm_iff {square : ℚ} (nonneg : 0 ≤ square) :
    eq (narrow square) (finite 0) = true ↔ square = 0 := by
  rw [eq_finite_iff]
  rcases narrow_nonneg nonneg with beyond | within
  · rw [beyond]
    constructor
    · intro impossible
      cases impossible
    · intro zero
      rw [zero, narrow, if_neg (not_lt.mpr largest_pos.le)] at beyond
      split at beyond
      · cases beyond
      · cases beyond
  · rw [within, finite.injEq]

theorem sortable_iff (metric : DistanceMetric) {a b : List F32} (sized : a.length = b.length) :
    Sortable metric (sortKey rest metric a b) ↔ InRange metric a b := by
  rw [sortKey_eq rest sized]
  cases metric with
  | euclidean =>
      have number : sqrt (scalarL2Squared a b) ≠ nan := by
        rw [scalarL2Squared]
        rcases narrow_nonneg (squares_nonneg a b) with beyond | within
        · rw [beyond]
          simp [sqrt]
        · rw [within, sqrt, if_neg (not_lt.mpr (squares_nonneg a b))]
          simp
      exact iff_of_true ⟨number, fun impossible => by (cases impossible)⟩
        (fun impossible => by (cases impossible))
  | dotProduct =>
      exact iff_of_true ⟨narrow_ne_nan _, fun impossible => by (cases impossible)⟩
        (fun impossible => by (cases impossible))
  | cosine =>
      obtain ⟨isFirst, isSecond, bound⟩ := products_le a b sized
      simp only [scalarDot, zero_norm_iff isFirst, zero_norm_iff isSecond]
      split
      · next zero =>
          have none : products a b * products a b ≤ 0 := by
            rcases zero with first | second
            · rw [first, zero_mul] at bound
              exact bound
            · rw [second, mul_zero] at bound
              exact bound
          have within : |products a b| ≤ largest := by
            rw [mul_self_eq_zero.mp (le_antisymm none (mul_self_nonneg _)), abs_zero]
            exact largest_pos.le
          exact iff_of_true ⟨by simp, fun _ => Or.inl rfl⟩ (fun _ => within)
      · next positive =>
          rw [not_or] at positive
          have divides := quotient_nan_iff (lt_of_le_of_ne isFirst (Ne.symm positive.1))
            (lt_of_le_of_ne isSecond (Ne.symm positive.2)) bound
          by_cases within : |products a b| ≤ largest
          · have quotient := mt divides.mp (not_lt.mpr within)
            obtain ⟨clamped, isClamped, low, high⟩ := clamp_spec (@sub_ne_nan 1 _ quotient)
            rw [isClamped]
            exact iff_of_true ⟨by simp, fun _ => Or.inr ⟨clamped, rfl, low, high⟩⟩ (fun _ => within)
          · rw [divides.mpr (not_le.mp within)]
            have undefined : sub (finite 1) nan = nan := rfl
            rw [undefined, clamp_nan]
            exact iff_of_false (fun sortable => sortable.1 rfl) (fun inRange => within (inRange rfl))

def unsorted (metric : DistanceMetric) (q : List F32) (records : List (RecordId × List F32)) :
    List (Neighbor FloatValue) :=
  records.map (fun record => ⟨record.1, sortKey rest metric q record.2⟩)

theorem neighborLt_strictWeak {results : List (Neighbor FloatValue)}
    (numbers : ∀ neighbor ∈ results, neighbor.distance ≠ nan) :
    StrictWeak Collection.neighborLt results := by
  apply strictWeak_of_rank (fun neighbor : Neighbor FloatValue =>
    toLex (neighbor.distance.rank, neighbor.id))
  intro first inFirst second inSecond
  have isFirst := numbers first inFirst
  have isSecond := numbers second inSecond
  have ranked := @keyedLt_iff_of FloatValue _ _ RecordId _ _ rank (first.distance, first.id)
    (second.distance, second.id) (lt_iff isFirst isSecond) (eq_iff isFirst isSecond)
  rw [← ranked, Collection.neighborLt]
  simp only [keyedLt]
  by_cases same : eq first.distance second.distance = true
  · simp only [same, Bool.not_true, Bool.false_eq_true, if_false, decide_eq_true_eq]
  · simp only [same, Bool.not_false, if_true]

/-- A query can sort by a distance exactly when its cosine divides no product
beyond the range of float32. -/
theorem distances_sortable (metric : DistanceMetric) (dimensionality : Nat) :
    (∀ a b : FiniteVector dimensionality,
      Sortable metric (sortKey rest metric a.1 b.1) ↔ InRange metric a.1 b.1) ∧
    ∀ (q : FiniteVector dimensionality) (records : List (RecordId × FiniteVector dimensionality)),
      (∀ record ∈ records, InRange metric q.1 record.2.1) →
        StrictWeak Collection.neighborLt
          (unsorted rest metric q.1 (records.map (fun record => (record.1, record.2.1)))) := by
  constructor
  · intro a b
    exact sortable_iff rest metric (a.2.1.trans b.2.1.symm)
  · intro q records inRange
    apply neighborLt_strictWeak
    intro neighbor member
    obtain ⟨pair, listed, isNeighbor⟩ := List.mem_map.mp member
    obtain ⟨record, inside, isPair⟩ := List.mem_map.mp listed
    rw [← isNeighbor, ← isPair]
    exact ((sortable_iff rest metric (q.2.1.trans record.2.2.1.symm)).mpr
      (inRange record inside)).1

end Query

def plainHost : Host FloatValue where
  distance := distance
  randomTopLayer _ _ _ := 0
  randomTopLayer_lt _ _ _ := Nat.two_pow_pos 31
  squaredL2 := scalarL2Squared
  mean members := members.headD []
  shuffled _ length := List.range length
  shuffled_perm := Host.in_place_perm

/-- The cosine of 2¹²⁷ and itself divides infinity by infinity, and a query that
meets it has a comparison no sort can use. -/
theorem cosine_not_a_number :
    sortKey plainHost .cosine [0x7F000000] [0x7F000000] = nan ∧
      (¬ ∀ (metric : DistanceMetric) (a b : FiniteVector 1),
        Sortable metric (sortKey plainHost metric a.1 b.1)) ∧
      ¬ StrictWeak Collection.neighborLt (unsorted plainHost .cosine [0x7F000000]
        [([97], [0x3F800000]), ([98], [0x7F000000]), ([99], [0])]) := by
  have undefined : sortKey plainHost .cosine [0x7F000000] [0x7F000000] = nan := by decide +kernel
  refine ⟨undefined, ?_, ?_⟩
  · intro sortable
    have large : ∀ component ∈ [(0x7F000000 : F32)], component.isFinite = true :=
      List.forall_mem_singleton.mpr (by decide)
    exact (sortable .cosine ⟨[0x7F000000], rfl, large⟩ ⟨[0x7F000000], rfl, large⟩).1 undefined
  · intro weak
    have keys : unsorted plainHost .cosine [0x7F000000]
        [([97], [0x3F800000]), ([98], [0x7F000000]), ([99], [0])] =
          [⟨[97], finite 1⟩, ⟨[98], nan⟩, ⟨[99], infinite false⟩] := by decide +kernel
    rw [keys] at weak
    have apart := (weak.incomparable ⟨[97], finite 1⟩ (by decide +kernel) ⟨[98], nan⟩
      (by decide +kernel) ⟨[99], infinite false⟩ (by decide +kernel) (by decide +kernel)
      (by decide +kernel) (by decide +kernel) (by decide +kernel)).1
    exact absurd apart (by decide +kernel)

end DistanceCalculator

end VectorVault
