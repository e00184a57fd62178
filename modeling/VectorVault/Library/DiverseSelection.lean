import VectorVault.Library.FloatOrder

/-! Selection of a diverse few of many candidates.

Candidates are taken nearest first; one is kept when it is not as near to any
kept one as to the base. Nothing is assumed of the distances between them. -/

namespace VectorVault.DiverseSelection

open FloatOrder

variable {D V : Type} [FloatOrder D]

/-- Whether `cand` is farther from every selected one than from the base. -/
def diverse (apart : V → V → D) (cand : D × V) (selected : List V) : Bool :=
  selected.all (fun other => !le (apart cand.2 other) cand.1)

def pick (apart : V → V → D) (limit : Nat) : List (D × V) → List V → List V
  | [], selected => selected
  | cand :: rest, selected =>
      if selected.length ≥ limit then selected
      else if diverse apart cand selected then pick apart limit rest (selected ++ [cand.2])
      else pick apart limit rest selected

variable (apart : V → V → D) (limit : Nat)

theorem pick_sublist (candidates : List (D × V)) (selected : List V) :
    (pick apart limit candidates selected).Sublist (selected ++ candidates.map Prod.snd) := by
  induction candidates generalizing selected with
  | nil => simp [pick]
  | cons cand rest ih =>
      have skip : (selected ++ rest.map Prod.snd).Sublist
          (selected ++ (cand :: rest).map Prod.snd) :=
        List.Sublist.append_left (List.sublist_cons_self _ _) _
      unfold pick
      split
      · exact List.sublist_append_left _ _
      · split
        · have kept := ih (selected ++ [cand.2])
          rw [List.append_assoc] at kept
          exact kept
        · exact (ih selected).trans skip

theorem pick_length (candidates : List (D × V)) (selected : List V)
    (bound : selected.length ≤ limit) : (pick apart limit candidates selected).length ≤ limit := by
  induction candidates generalizing selected with
  | nil => exact bound
  | cons cand rest ih =>
      unfold pick
      split
      · exact bound
      · split
        · refine ih _ ?_
          rw [List.length_append, List.length_singleton]
          omega
        · exact ih selected bound

theorem subset_pick (candidates : List (D × V)) (selected : List V) :
    ∀ node ∈ selected, node ∈ pick apart limit candidates selected := by
  induction candidates generalizing selected with
  | nil => exact fun node member => member
  | cons cand rest ih =>
      intro node member
      unfold pick
      split
      · exact member
      · split
        · exact ih _ node (List.mem_append_left _ member)
        · exact ih _ node member

theorem head_mem_pick (cand : D × V) (rest : List (D × V)) (room : 1 ≤ limit) :
    cand.2 ∈ pick apart limit (cand :: rest) [] := by
  unfold pick
  rw [if_neg (show ¬ ([] : List V).length ≥ limit by simp; omega)]
  simp only [diverse, List.all_nil, if_true, List.nil_append]
  exact subset_pick apart limit rest [cand.2] cand.2 List.mem_cons_self

section Greedy

variable {before : D × V → D × V → Prop} {candidates chosen rest : List (D × V)} {cand : D × V}

/-- What is chosen of candidates that come in an order, and why the others are not. -/
structure Chosen (apart : V → V → D) (limit : Nat) (before : D × V → D × V → Prop)
    (candidates chosen : List (D × V)) : Prop where
  sub : chosen.Sublist candidates
  atMost : chosen.length ≤ limit
  spread : chosen.Pairwise (fun earlier later => le (apart later.2 earlier.2) later.1 = false)
  others : ∀ cand ∈ candidates, cand ∉ chosen →
    (∃ earlier ∈ chosen, before earlier cand ∧ le (apart cand.2 earlier.2) cand.1 = true) ∨
      (chosen.length = limit ∧ ∀ accepted ∈ chosen, before accepted cand)

theorem diverse_map (cand : D × V) (chosen : List (D × V)) :
    diverse apart cand (chosen.map Prod.snd) = true ↔
      ∀ earlier ∈ chosen, le (apart cand.2 earlier.2) cand.1 = false := by
  simp [diverse]

variable {apart limit}

theorem Chosen.full (picked : Chosen apart limit before candidates chosen)
    (ordered : (candidates ++ rest).Pairwise before) (full : chosen.length ≥ limit) :
    Chosen apart limit before (candidates ++ rest) chosen where
  sub := picked.sub.trans (List.sublist_append_left _ _)
  atMost := picked.atMost
  spread := picked.spread
  others := by
    intro cand member absent
    rcases List.mem_append.mp member with old | new
    · exact picked.others cand old absent
    · right
      refine ⟨le_antisymm picked.atMost full, ?_⟩
      intro accepted inside
      exact (List.pairwise_append.mp ordered).2.2 accepted (picked.sub.subset inside) cand new

theorem Chosen.keep (picked : Chosen apart limit before candidates chosen)
    (room : chosen.length < limit)
    (far : ∀ earlier ∈ chosen, le (apart cand.2 earlier.2) cand.1 = false) :
    Chosen apart limit before (candidates ++ [cand]) (chosen ++ [cand]) where
  sub := picked.sub.append (List.Sublist.refl _)
  atMost := by
    rw [List.length_append, List.length_singleton]
    exact room
  spread := by
    apply List.pairwise_append.mpr
    refine ⟨picked.spread, List.pairwise_singleton _ _, ?_⟩
    intro earlier inside later last
    rw [List.mem_singleton.mp last]
    exact far earlier inside
  others := by
    intro other member absent
    rcases List.mem_append.mp member with old | new
    · have missing : other ∉ chosen := fun inside => absent (List.mem_append_left _ inside)
      rcases picked.others other old missing with near | late
      · rcases near with ⟨earlier, inside, near⟩
        exact Or.inl ⟨earlier, List.mem_append_left _ inside, near⟩
      · omega
    · exact absurd (List.mem_append_right _ new) absent

theorem Chosen.skip (picked : Chosen apart limit before candidates chosen)
    (ordered : (candidates ++ [cand]).Pairwise before)
    (near : ∃ earlier ∈ chosen, le (apart cand.2 earlier.2) cand.1 = true) :
    Chosen apart limit before (candidates ++ [cand]) chosen where
  sub := picked.sub.trans (List.sublist_append_left _ _)
  atMost := picked.atMost
  spread := picked.spread
  others := by
    intro other member absent
    rcases List.mem_append.mp member with old | new
    · exact picked.others other old absent
    · rw [List.mem_singleton.mp new]
      rcases near with ⟨earlier, inside, near⟩
      have first := (List.pairwise_append.mp ordered).2.2 earlier (picked.sub.subset inside) cand
        (List.mem_singleton_self cand)
      exact Or.inl ⟨earlier, inside, first, near⟩

/-- Induction over the candidates left; what was chosen of those before stands. -/
theorem Chosen.pick (picked : Chosen apart limit before candidates chosen)
    (ordered : (candidates ++ rest).Pairwise before) :
    ∃ final, DiverseSelection.pick apart limit rest (chosen.map Prod.snd) = final.map Prod.snd ∧
      Chosen apart limit before (candidates ++ rest) final := by
  induction rest generalizing candidates chosen with
  | nil =>
      rw [List.append_nil]
      exact ⟨chosen, rfl, picked⟩
  | cons cand rest ih =>
      have moved : candidates ++ cand :: rest = (candidates ++ [cand]) ++ rest := by simp
      have soFar : (candidates ++ [cand]).Pairwise before := by
        rw [moved] at ordered
        exact (List.pairwise_append.mp ordered).1
      unfold DiverseSelection.pick
      rw [List.length_map]
      by_cases full : chosen.length ≥ limit
      · rw [if_pos full]
        exact ⟨chosen, rfl, picked.full ordered full⟩
      · rw [if_neg full]
        rw [moved] at ordered ⊢
        by_cases far : diverse apart cand (chosen.map Prod.snd) = true
        · rw [if_pos far]
          have kept := picked.keep (not_le.mp full) ((diverse_map apart cand chosen).mp far)
          simpa using ih kept ordered
        · rw [if_neg far]
          have near : ∃ earlier ∈ chosen, le (apart cand.2 earlier.2) cand.1 = true := by
            simpa [diverse_map] using far
          exact ih (picked.skip soFar near) ordered

theorem pick_chosen (ordered : candidates.Pairwise before) :
    ∃ chosen, pick apart limit candidates [] = chosen.map Prod.snd ∧
      Chosen apart limit before candidates chosen := by
  have nothing : Chosen apart limit before [] [] :=
    ⟨List.Sublist.refl _, Nat.zero_le _, List.Pairwise.nil, by simp⟩
  exact nothing.pick ordered

theorem Chosen.first_mem (picked : Chosen apart limit before candidates chosen)
    (room : 1 ≤ limit) (member : cand ∈ candidates)
    (first : ∀ other ∈ candidates, ¬ before other cand) : cand ∈ chosen := by
  by_contra absent
  rcases picked.others cand member absent with ⟨earlier, inside, sooner, _⟩ | ⟨full, sooner⟩
  · exact first earlier (picked.sub.subset inside) sooner
  · have some_ : 0 < chosen.length := by omega
    have inside := List.getElem_mem some_
    exact first _ (picked.sub.subset inside) (sooner _ inside)

end Greedy

end VectorVault.DiverseSelection
