import VectorVault.Distances

/-! The 16-lane distance kernels and the scalar ones, in exact arithmetic.

A kernel returns its value and the elements it read, in order. A register is a
function of its lanes, and an intrinsic acts lane by lane as documented; widening
and narrowing do nothing to an exact value. -/

namespace VectorVault.Kernels

inductive Operand where
  | a
  | b
  deriving DecidableEq

abbrev Reads := List (Operand × Nat)

section Intrinsics

variable {K : Type} [CommRing K]

def loadu (memory : Nat → K) (i : Nat) : Fin 16 → K := fun lane => memory (i + lane)

def loaduReads (operand : Operand) (i : Nat) : Reads :=
  (List.range 16).map (fun lane => (operand, i + lane))

def setzero : Fin 8 → K := fun _ => 0

def subPs (x y : Fin 16 → K) : Fin 16 → K := fun lane => x lane - y lane

def cvtpsPd (x : Fin 8 → K) : Fin 8 → K := x

def fmaddPd (x y z : Fin 8 → K) : Fin 8 → K := fun lane => x lane * y lane + z lane

def lowerPs256 (x : Fin 16 → K) : Fin 8 → K := fun lane => x (lane.castAdd 8)

def castpsPd (x : Fin 16 → K) : Fin 8 → K × K :=
  fun lane => (x ⟨2 * lane, by omega⟩, x ⟨2 * lane + 1, by omega⟩)

def extractUpper (x : Fin 8 → K × K) : Fin 4 → K × K := fun lane => x (lane.natAdd 4)

def castpdPs (x : Fin 4 → K × K) : Fin 8 → K := fun lane =>
  if lane.val % 2 = 0 then (x ⟨lane / 2, by omega⟩).1 else (x ⟨lane / 2, by omega⟩).2

/-- `_mm512_reduce_add_pd`: the upper half is added onto the lower, three times. -/
def reduceAdd (x : Fin 8 → K) : K :=
  let four : Fin 4 → K := fun lane => x (lane.castAdd 4) + x (lane.natAdd 4)
  let two : Fin 2 → K := fun lane => four (lane.castAdd 2) + four (lane.natAdd 2)
  two 0 + two 1

end Intrinsics

section Kernels

variable {K : Type} [CommRing K]

def upperPs256 (v : Fin 16 → K) : Fin 8 → K := castpdPs (extractUpper (castpsPd v))

structure Accumulators (K : Type) where
  lo : Fin 8 → K
  hi : Fin 8 → K

/-- `acc += diff * diff`, the differences taken in one 16-lane register. -/
def l2Block (va vb : Fin 16 → K) (acc : Accumulators K) : Accumulators K :=
  let diff := subPs va vb
  let dlo := cvtpsPd (lowerPs256 diff)
  let dhi := cvtpsPd (upperPs256 diff)
  ⟨fmaddPd dlo dlo acc.lo, fmaddPd dhi dhi acc.hi⟩

def dotBlock (va vb : Fin 16 → K) (acc : Accumulators K) : Accumulators K :=
  let alo := cvtpsPd (lowerPs256 va)
  let ahi := cvtpsPd (upperPs256 va)
  let blo := cvtpsPd (lowerPs256 vb)
  let bhi := cvtpsPd (upperPs256 vb)
  ⟨fmaddPd alo blo acc.lo, fmaddPd ahi bhi acc.hi⟩

def blocks (block : (Fin 16 → K) → (Fin 16 → K) → Accumulators K → Accumulators K)
    (a b : Nat → K) (n i : Nat) (acc : Accumulators K) (reads : Reads) :
    Nat × Accumulators K × Reads :=
  if i + 16 ≤ n then
    blocks block a b n (i + 16) (block (loadu a i) (loadu b i) acc)
      (reads ++ (loaduReads .a i ++ loaduReads .b i))
  else (i, acc, reads)
termination_by n - i

def tail (term : K → K → K) (a b : Nat → K) (n i : Nat) (sum : K) (reads : Reads) : K × Reads :=
  if i < n then tail term a b n (i + 1) (sum + term (a i) (b i)) (reads ++ [(.a, i), (.b, i)])
  else (sum, reads)
termination_by n - i

def squaredDifference (x y : K) : K := (x - y) * (x - y)

def scalarL2Squared (a b : Nat → K) (n : Nat) : K × Reads := tail squaredDifference a b n 0 0 []

def scalarDot (a b : Nat → K) (n : Nat) : K × Reads := tail (· * ·) a b n 0 0 []

def avx512L2Squared (a b : Nat → K) (n : Nat) : K × Reads :=
  let (i, acc, reads) := blocks l2Block a b n 0 ⟨setzero, setzero⟩ []
  tail squaredDifference a b n i (reduceAdd acc.lo + reduceAdd acc.hi) reads

def avx512Dot (a b : Nat → K) (n : Nat) : K × Reads :=
  let (i, acc, reads) := blocks dotBlock a b n 0 ⟨setzero, setzero⟩ []
  tail (· * ·) a b n i (reduceAdd acc.lo + reduceAdd acc.hi) reads

end Kernels

section Reads

def elements (n : Nat) : Reads :=
  (List.range n).map (fun i => (Operand.a, i)) ++ (List.range n).map (fun i => (Operand.b, i))

theorem elements_add (n more : Nat) :
    (elements n ++ ((List.range more).map (fun i => (Operand.a, n + i)) ++
      (List.range more).map (fun i => (Operand.b, n + i)))).Perm (elements (n + more)) := by
  have split : ∀ operand : Operand, (List.range (n + more)).map (fun i => (operand, i)) =
      (List.range n).map (fun i => (operand, i)) ++
        (List.range more).map (fun i => (operand, n + i)) := by
    intro operand
    rw [List.range_add, List.map_append, List.map_map]
    rfl
  rw [elements, elements, split, split, List.append_assoc, List.append_assoc]
  apply List.Perm.append_left
  rw [← List.append_assoc, ← List.append_assoc]
  exact List.perm_append_comm.append_right _

end Reads

section Sums

variable {K : Type} [CommRing K]

theorem reduceAdd_eq (x : Fin 8 → K) : reduceAdd x = ∑ lane, x lane := by
  rw [Fin.sum_univ_eight]
  change x 0 + x 4 + (x 2 + x 6) + (x 1 + x 5 + (x 3 + x 7)) = _
  ring

theorem reduceAdd_fmadd (x y z : Fin 8 → K) :
    reduceAdd (fmaddPd x y z) = ∑ lane, x lane * y lane + reduceAdd z := by
  rw [reduceAdd_eq, reduceAdd_eq, ← Finset.sum_add_distrib]
  rfl

omit [CommRing K] in
theorem upperPs256_eq (v : Fin 16 → K) (lane : Fin 8) : upperPs256 v lane = v (lane.natAdd 8) := by
  unfold upperPs256 castpdPs extractUpper castpsPd
  split
  · next even =>
      refine congrArg v (Fin.ext ?_)
      simp only [Fin.val_natAdd]
      omega
  · next odd =>
      refine congrArg v (Fin.ext ?_)
      simp only [Fin.val_natAdd]
      omega

theorem sum_halves (term : Fin 16 → K) :
    ∑ lane : Fin 8, term (lane.castAdd 8) + ∑ lane : Fin 8, term (lane.natAdd 8) =
      ∑ lane, term lane :=
  (@Fin.sum_univ_add K _ 8 8 term).symm

def AddsTerms (term : K → K → K)
    (block : (Fin 16 → K) → (Fin 16 → K) → Accumulators K → Accumulators K) : Prop :=
  ∀ va vb acc, reduceAdd (block va vb acc).lo + reduceAdd (block va vb acc).hi =
    reduceAdd acc.lo + reduceAdd acc.hi + ∑ lane, term (va lane) (vb lane)

theorem l2Block_adds : AddsTerms squaredDifference (l2Block : _ → _ → _ → Accumulators K) := by
  intro va vb acc
  have whole := sum_halves (fun lane => squaredDifference (va lane) (vb lane))
  calc reduceAdd (l2Block va vb acc).lo + reduceAdd (l2Block va vb acc).hi
      = (∑ lane : Fin 8, squaredDifference (va (lane.castAdd 8)) (vb (lane.castAdd 8)) +
          reduceAdd acc.lo) +
        (∑ lane : Fin 8, squaredDifference (va (lane.natAdd 8)) (vb (lane.natAdd 8)) +
          reduceAdd acc.hi) := by
        simp only [l2Block, reduceAdd_fmadd, cvtpsPd, upperPs256_eq, lowerPs256, subPs,
          squaredDifference]
    _ = _ := by
        rw [← whole]
        ring

theorem dotBlock_adds : AddsTerms (· * ·) (dotBlock : _ → _ → _ → Accumulators K) := by
  intro va vb acc
  have whole := sum_halves (fun lane => va lane * vb lane)
  calc reduceAdd (dotBlock va vb acc).lo + reduceAdd (dotBlock va vb acc).hi
      = (∑ lane : Fin 8, va (lane.castAdd 8) * vb (lane.castAdd 8) + reduceAdd acc.lo) +
        (∑ lane : Fin 8, va (lane.natAdd 8) * vb (lane.natAdd 8) + reduceAdd acc.hi) := by
        simp only [dotBlock, reduceAdd_fmadd, cvtpsPd, upperPs256_eq, lowerPs256]
    _ = _ := by
        rw [← whole]
        ring

variable {term : K → K → K} (a b : Nat → K) (n : Nat)

theorem sum_block (i : Nat) :
    ∑ j ∈ Finset.range i, term (a j) (b j) +
        ∑ lane : Fin 16, term (loadu a i lane) (loadu b i lane) =
      ∑ j ∈ Finset.range (i + 16), term (a j) (b j) := by
  have lanes := Fin.sum_univ_eq_sum_range (fun lane => term (a (i + lane)) (b (i + lane))) 16
  rw [Finset.sum_range_add, ← lanes]
  rfl

theorem tail_spec (i : Nat) (sum : K) (reads : Reads) (inside : i ≤ n)
    (summed : sum = ∑ j ∈ Finset.range i, term (a j) (b j)) (once : reads.Perm (elements i)) :
    (tail term a b n i sum reads).1 = ∑ j ∈ Finset.range n, term (a j) (b j) ∧
      (tail term a b n i sum reads).2.Perm (elements n) := by
  induction i, sum, reads using tail.induct term a b n with
  | case1 i sum reads more ih =>
      rw [tail, if_pos more]
      apply ih more
      · rw [summed, Finset.sum_range_succ]
      · exact (once.append_right _).trans (elements_add i 1)
  | case2 i sum reads done =>
      have all : i = n := by omega
      rw [tail, if_neg done, ← all]
      exact ⟨summed, once⟩

theorem blocks_spec {block : (Fin 16 → K) → (Fin 16 → K) → Accumulators K → Accumulators K}
    (adds : AddsTerms term block) (i : Nat) (acc : Accumulators K) (reads : Reads) (inside : i ≤ n)
    (summed : reduceAdd acc.lo + reduceAdd acc.hi = ∑ j ∈ Finset.range i, term (a j) (b j))
    (once : reads.Perm (elements i)) :
    ∃ last final read, blocks block a b n i acc reads = (last, final, read) ∧ last ≤ n ∧
      reduceAdd final.lo + reduceAdd final.hi = ∑ j ∈ Finset.range last, term (a j) (b j) ∧
      read.Perm (elements last) := by
  induction i, acc, reads using blocks.induct block a b n with
  | case1 i acc reads more ih =>
      rw [blocks, if_pos more]
      apply ih more
      · rw [adds, summed, sum_block]
      · exact (once.append_right _).trans (elements_add i 16)
  | case2 i acc reads done =>
      rw [blocks, if_neg done]
      exact ⟨i, acc, reads, rfl, inside, summed, once⟩

theorem kernel_spec {block : (Fin 16 → K) → (Fin 16 → K) → Accumulators K → Accumulators K}
    (adds : AddsTerms term block) :
    ∃ last final read, blocks block a b n 0 ⟨setzero, setzero⟩ [] = (last, final, read) ∧
      (tail term a b n last (reduceAdd final.lo + reduceAdd final.hi) read).1 =
        ∑ j ∈ Finset.range n, term (a j) (b j) ∧
      (tail term a b n last (reduceAdd final.lo + reduceAdd final.hi) read).2.Perm
        (elements n) := by
  have zero : reduceAdd (setzero : Fin 8 → K) = 0 := by
    rw [reduceAdd_eq]
    exact Finset.sum_eq_zero (fun _ _ => rfl)
  rcases @blocks_spec K _ term a b n block adds 0 ⟨setzero, setzero⟩ [] (Nat.zero_le n)
    (by rw [zero, add_zero, Finset.sum_range_zero]) (List.Perm.refl _) with
    ⟨last, final, read, done, inside, summed, once⟩
  exact ⟨last, final, read, done, tail_spec a b n last _ read inside summed once⟩

theorem scalar_spec (term : K → K → K) :
    (tail term a b n 0 0 []).1 = ∑ j ∈ Finset.range n, term (a j) (b j) ∧
      (tail term a b n 0 0 []).2.Perm (elements n) :=
  tail_spec a b n 0 0 [] (Nat.zero_le n) (Finset.sum_range_zero _).symm (List.Perm.refl _)

theorem avx512L2Squared_spec :
    (avx512L2Squared a b n).1 = ∑ j ∈ Finset.range n, squaredDifference (a j) (b j) ∧
      (avx512L2Squared a b n).2.Perm (elements n) := by
  rcases @kernel_spec K _ squaredDifference a b n l2Block l2Block_adds with
    ⟨last, final, read, done, value, once⟩
  rw [avx512L2Squared, done]
  exact ⟨value, once⟩

theorem avx512Dot_spec :
    (avx512Dot a b n).1 = ∑ j ∈ Finset.range n, a j * b j ∧
      (avx512Dot a b n).2.Perm (elements n) := by
  rcases @kernel_spec K _ (· * ·) a b n dotBlock dotBlock_adds with
    ⟨last, final, read, done, value, once⟩
  rw [avx512Dot, done]
  exact ⟨value, once⟩

/-- The kernels agree for every length, and read each element below it once. -/
theorem avx512_eq_scalar (a b : Nat → K) (n : Nat) :
    (avx512L2Squared a b n).1 = (scalarL2Squared a b n).1 ∧
      (avx512Dot a b n).1 = (scalarDot a b n).1 ∧
      (avx512L2Squared a b n).2.Perm (elements n) ∧ (avx512Dot a b n).2.Perm (elements n) := by
  have squares := avx512L2Squared_spec a b n
  have products := avx512Dot_spec a b n
  exact ⟨squares.1.trans (scalar_spec a b n squaredDifference).1.symm,
    products.1.trans (scalar_spec a b n (· * ·)).1.symm, squares.2, products.2⟩

end Sums

section Calculator

def numbers (components : List F32) (i : Nat) : ℚ := (components.getD i 0).number

theorem sum_zip (term : ℚ → ℚ → ℚ) (a b : List F32) (sized : a.length = b.length) :
    ((a.zip b).map (fun pair => term pair.1.number pair.2.number)).sum =
      ∑ j ∈ Finset.range a.length, term (numbers a j) (numbers b j) := by
  induction a generalizing b with
  | nil => rfl
  | cons x rest ih =>
      rcases b with _ | ⟨y, rest'⟩
      · cases sized
      · rw [List.zip_cons_cons, List.map_cons, List.sum_cons, ih rest' (Nat.succ.inj sized),
          List.length_cons, Finset.sum_range_succ', add_comm]
        rfl

/-- The exact sums of the distance calculator are those of the bound kernels,
whichever they are. -/
theorem calculator_kernels (a b : List F32) (sized : a.length = b.length) :
    DistanceCalculator.squares a b = (avx512L2Squared (numbers a) (numbers b) a.length).1 ∧
      DistanceCalculator.products a b = (avx512Dot (numbers a) (numbers b) a.length).1 := by
  constructor
  · rw [(avx512L2Squared_spec _ _ _).1, DistanceCalculator.squares_eq]
    exact sum_zip squaredDifference a b sized
  · rw [(avx512Dot_spec _ _ _).1, DistanceCalculator.products_eq]
    exact sum_zip (· * ·) a b sized

end Calculator

end VectorVault.Kernels
