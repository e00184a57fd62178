import VectorVault.Types

/-! What the program takes from its surroundings.

Distances, random draws and the k-means arithmetic are floating point and
random-engine code; the model is parametric in them. `D` is the type of float
values, with the comparisons of `FloatOrder`. -/

namespace VectorVault

structure Host (D : Type) where
  /-- `DistanceCalculator::distance`. -/
  distance : DistanceMetric → List F32 → List F32 → Result D
  /-- The n-th draw of `HnswIndex::random_top_layer` for a seed and an `m`. -/
  randomTopLayer : UInt64 → UInt32 → Nat → Nat
  randomTopLayer_lt : ∀ seed m drawn, randomTopLayer seed m drawn < 2 ^ 31
  /-- `squared_l2`, the coarse quantizer's distance. -/
  squaredL2 : List F32 → List F32 → D
  /-- The mean of a cell's members, summed in doubles and rounded to float32. -/
  mean : List (List F32) → List F32
  /-- The positions `std::shuffle` takes its elements from, for an engine seeded
  by the given value and that many elements. -/
  shuffled : UInt64 → Nat → List Nat
  shuffled_perm : ∀ seed length, (shuffled seed length).Perm (List.range length)

theorem Host.in_place_perm (_ : UInt64) (length : Nat) :
    (List.range length).Perm (List.range length) :=
  List.Perm.refl _

variable {D : Type} [FloatOrder D]

/-- A distance that cannot be computed counts as `+infinity`. -/
def Host.distanceOr (host : Host D) (metric : DistanceMetric) (first second : List F32) : D :=
  match host.distance metric first second with
  | .ok distance => distance
  | .error _ => FloatOrder.infinity

end VectorVault
