import Mathlib.Logic.Function.Basic
import Mathlib.Data.List.Nodup
import Mathlib.Tactic

/-! Linearizability of a history of calls, by linearization points.

A trace lists what the calls do: each is invoked, takes its effect at one point
and responds. When every call goes through the three in order and the points are
a run of the sequential specification, the callers cannot tell the history from
that run. -/

namespace VectorVault.Linearizability

variable {I Op Ret S C : Type}

inductive Label (I Op Ret : Type) where
  | invoke (call : I) (op : Op)
  | point (call : I) (op : Op) (ret : Ret)
  | respond (call : I) (op : Op) (ret : Ret)

inductive Event (I Op Ret : Type) where
  | invoke (call : I) (op : Op)
  | respond (call : I) (ret : Ret)

structure Completed (I Op Ret : Type) where
  call : I
  op : Op
  ret : Ret

def Label.call : Label I Op Ret → I
  | .invoke call _ => call
  | .point call _ _ => call
  | .respond call _ _ => call

def Label.event? : Label I Op Ret → Option (Event I Op Ret)
  | .invoke call op => some (.invoke call op)
  | .point _ _ _ => none
  | .respond call _ ret => some (.respond call ret)

def Label.point? : Label I Op Ret → Option (Completed I Op Ret)
  | .point call op ret => some ⟨call, op, ret⟩
  | _ => none

def history (trace : List (Label I Op Ret)) : List (Event I Op Ret) :=
  trace.filterMap Label.event?

def points (trace : List (Label I Op Ret)) : List (Completed I Op Ret) :=
  trace.filterMap Label.point?

inductive Replays (serves : S → Op → Ret → S → Prop) (start : S) :
    List (Completed I Op Ret) → S → Prop
  | nil : Replays serves start [] start
  | snoc {order : List (Completed I Op Ret)} {middle final : S} {next : Completed I Op Ret}
      (earlier : Replays serves start order middle)
      (served : serves middle next.op next.ret final) :
      Replays serves start (order ++ [next]) final

/-- An order of the calls that explains a history: calls that have responded are
in it, calls in progress may be, and one that responded before another was
invoked comes first. -/
structure Linearization (serves : S → Op → Ret → S → Prop) (start : S)
    (history : List (Event I Op Ret)) (order : List (Completed I Op Ret)) (final : S) : Prop where
  legal : Replays serves start order final
  once : (order.map Completed.call).Nodup
  invoked : ∀ done ∈ order, .invoke done.call done.op ∈ history
  responded : ∀ call ret, .respond call ret ∈ history →
    ∃ done ∈ order, done.call = call ∧ done.ret = ret
  realTime : ∀ early late, history = early ++ late → ∀ first ∈ order, ∀ second ∈ order,
    .respond first.call first.ret ∈ early → .invoke second.call second.op ∈ late →
      [first, second].Sublist order

inductive Stage (Op Ret : Type) where
  | idle
  | invoked (op : Op)
  | taken (op : Op) (ret : Ret)
  | responded (op : Op) (ret : Ret)

def Stage.labels (call : I) : Stage Op Ret → List (Label I Op Ret)
  | .idle => []
  | .invoked op => [.invoke call op]
  | .taken op ret => [.invoke call op, .point call op ret]
  | .responded op ret => [.invoke call op, .point call op ret, .respond call op ret]

section Discipline

variable [DecidableEq I]

def ofCall (call : I) (trace : List (Label I Op Ret)) : List (Label I Op Ret) :=
  trace.filter (fun label => decide (label.call = call))

def Left (trace : List (Label I Op Ret)) (stage : I → Stage Op Ret) : Prop :=
  ∀ call, ofCall call trace = (stage call).labels call

def Label.Moves (label : Label I Op Ret) (before after : I → Stage Op Ret) : Prop :=
  match label with
  | .invoke call op => before call = .idle ∧ after = Function.update before call (.invoked op)
  | .point call op ret =>
      before call = .invoked op ∧ after = Function.update before call (.taken op ret)
  | .respond call op ret =>
      before call = .taken op ret ∧ after = Function.update before call (.responded op ret)

variable {trace early late : List (Label I Op Ret)} {stage before after : I → Stage Op Ret}
  {label : Label I Op Ret} {call : I} {op : Op} {ret : Ret}

theorem mem_ofCall (member : label ∈ trace) : label ∈ ofCall label.call trace :=
  List.mem_filter.mpr ⟨member, decide_eq_true rfl⟩

theorem ofCall_cons (call : I) (label : Label I Op Ret) (trace : List (Label I Op Ret)) :
    ofCall call (label :: trace) =
      if label.call = call then label :: ofCall call trace else ofCall call trace := by
  rw [ofCall, List.filter_cons]
  simp only [decide_eq_true_eq]
  rfl

theorem Left.snoc (left : Left trace before) (moves : label.Moves before after) :
    Left (trace ++ [label]) after := by
  have own : (after label.call).labels label.call =
        (before label.call).labels label.call ++ [label] ∧
      ∀ other, other ≠ label.call → after other = before other := by
    cases label with
    | invoke call op =>
        rw [moves.2]
        simp only [Label.call, Function.update_self, moves.1]
        exact ⟨rfl, fun other apart => Function.update_of_ne apart _ _⟩
    | point call op ret =>
        rw [moves.2]
        simp only [Label.call, Function.update_self, moves.1]
        exact ⟨rfl, fun other apart => Function.update_of_ne apart _ _⟩
    | respond call op ret =>
        rw [moves.2]
        simp only [Label.call, Function.update_self, moves.1]
        exact ⟨rfl, fun other apart => Function.update_of_ne apart _ _⟩
  intro call
  rw [ofCall, List.filter_append, ← ofCall, left call]
  by_cases here : label.call = call
  · rw [← here, own.1, List.filter_singleton, decide_eq_true rfl]
    rfl
  · rw [own.2 call (Ne.symm here), List.filter_singleton, decide_eq_false here]
    exact List.append_nil _

theorem Left.past (left : Left (early ++ late) stage) (responded : .respond call op ret ∈ early) :
    ofCall call late = [] := by
  have split := left call
  rw [ofCall, List.filter_append, ← ofCall, ← ofCall] at split
  have member : .respond call op ret ∈ ofCall call early := mem_ofCall responded
  have all : .respond call op ret ∈ (stage call).labels call := by
    rw [← split]
    exact List.mem_append_left _ member
  cases reached : stage call <;> rw [reached] at all split <;> simp [Stage.labels] at all split
  · next op' ret' =>
      by_contra more
      have isLast := congrArg List.getLast? split
      rw [List.getLast?_append_of_ne_nil _ more] at isLast
      have inside := List.mem_of_getLast? (isLast.trans rfl)
      have nodup : (ofCall call early ++ ofCall call late).Nodup := by
        rw [split]
        simp
      rw [← all.1, ← all.2] at inside
      exact List.disjoint_of_nodup_append nodup member inside

theorem Left.future (left : Left (early ++ late) stage) (invoked : .invoke call op ∈ late) :
    ofCall call early = [] := by
  have split := left call
  rw [ofCall, List.filter_append, ← ofCall, ← ofCall] at split
  have member : .invoke call op ∈ ofCall call late := mem_ofCall invoked
  have nodup : (ofCall call early ++ ofCall call late).Nodup := by
    rw [split]
    cases stage call <;> simp [Stage.labels]
  have all : .invoke call op ∈ (stage call).labels call := by
    rw [← split]
    exact List.mem_append_right _ member
  cases isEarly : ofCall call early with
  | nil => rfl
  | cons head rest =>
      have first : head = .invoke call op := by
        rw [isEarly] at split
        cases reached : stage call <;> rw [reached] at all split <;>
          simp [Stage.labels] at all split
        all_goals rw [split.1, all]
      rw [isEarly, first] at nodup
      exact absurd member (List.disjoint_of_nodup_append nodup List.mem_cons_self)

theorem Left.pointed (left : Left trace stage) (responded : .respond call op ret ∈ trace) :
    .point call op ret ∈ trace ∧ .invoke call op ∈ trace := by
  have member : .respond call op ret ∈ ofCall call trace := mem_ofCall responded
  have inside : ∀ label, label ∈ (stage call).labels call → label ∈ trace := by
    intro label present
    rw [← left call] at present
    exact (List.mem_filter.mp present).1
  rw [left call] at member
  cases reached : stage call <;> rw [reached] at member inside <;> simp [Stage.labels] at member
  rw [member.1, member.2]
  exact ⟨inside _ (by simp [Stage.labels]), inside _ (by simp [Stage.labels])⟩

theorem Left.started (left : Left trace stage) (pointed : .point call op ret ∈ trace) :
    .invoke call op ∈ trace := by
  have member : .point call op ret ∈ ofCall call trace := mem_ofCall pointed
  have inside : ∀ label, label ∈ (stage call).labels call → label ∈ trace := by
    intro label present
    rw [← left call] at present
    exact (List.mem_filter.mp present).1
  rw [left call] at member
  cases reached : stage call <;> rw [reached] at member inside <;> simp [Stage.labels] at member
  all_goals
    rw [member.1]
    exact inside _ (by simp [Stage.labels])

omit [DecidableEq I] in
theorem mem_points {done : Completed I Op Ret} :
    done ∈ points trace ↔ .point done.call done.op done.ret ∈ trace := by
  rw [points, List.mem_filterMap]
  constructor
  · rintro ⟨label, member, isPoint⟩
    cases label with
    | point call op ret =>
        cases isPoint
        exact member
    | invoke => cases isPoint
    | respond => cases isPoint
  · intro member
    exact ⟨_, member, rfl⟩

omit [DecidableEq I] in
theorem mem_history_invoke : .invoke call op ∈ history trace ↔ .invoke call op ∈ trace := by
  rw [history, List.mem_filterMap]
  constructor
  · rintro ⟨label, member, isEvent⟩
    cases label <;> cases isEvent
    exact member
  · intro member
    exact ⟨_, member, rfl⟩

omit [DecidableEq I] in
theorem mem_history_respond :
    .respond call ret ∈ history trace ↔ ∃ op, .respond call op ret ∈ trace := by
  rw [history, List.mem_filterMap]
  constructor
  · rintro ⟨label, member, isEvent⟩
    cases label <;> cases isEvent
    exact ⟨_, member⟩
  · rintro ⟨op, member⟩
    exact ⟨_, member, rfl⟩

omit [DecidableEq I] in
theorem points_cons (label : Label I Op Ret) (trace : List (Label I Op Ret)) :
    points (label :: trace) = label.point?.toList ++ points trace := by
  cases label <;> rfl

theorem count_points (call : I) (trace : List (Label I Op Ret)) :
    ((points trace).map Completed.call).count call = (points (ofCall call trace)).length := by
  induction trace with
  | nil => rfl
  | cons label rest ih =>
      have own : ∀ done ∈ label.point?.toList, done.call = label.call := by
        intro done member
        cases label with
        | point call op ret =>
            rw [List.mem_singleton.mp member]
            rfl
        | invoke => cases member
        | respond => cases member
      rw [points_cons, List.map_append, List.count_append, ih]
      by_cases here : label.call = call
      · rw [ofCall_cons, if_pos here, points_cons, List.length_append]
        congr 1
        rw [List.count_eq_length.mpr, List.length_map]
        intro other member
        rcases List.mem_map.mp member with ⟨done, inside, isCall⟩
        rw [← isCall, own done inside, here]
      · rw [ofCall_cons, if_neg here, List.count_eq_zero_of_not_mem, Nat.zero_add]
        intro member
        rcases List.mem_map.mp member with ⟨done, inside, isCall⟩
        exact here ((own done inside).symm.trans isCall)

theorem Left.once (left : Left trace stage) : ((points trace).map Completed.call).Nodup := by
  apply List.nodup_iff_count_le_one.mpr
  intro call
  rw [count_points, left call]
  cases stage call with
  | idle => exact Nat.zero_le 1
  | invoked op => exact Nat.zero_le 1
  | taken op ret => exact Nat.le_refl 1
  | responded op ret => exact Nat.le_refl 1

theorem Left.linearization {serves : S → Op → Ret → S → Prop} {start final : S}
    (left : Left trace stage) (legal : Replays serves start (points trace) final) :
    Linearization serves start (history trace) (points trace) final := by
  refine ⟨legal, left.once, ?_, ?_, ?_⟩
  · intro done member
    exact mem_history_invoke.mpr (left.started (mem_points.mp member))
  · intro call ret member
    rcases mem_history_respond.mp member with ⟨op, responded⟩
    exact ⟨⟨call, op, ret⟩, mem_points.mpr (left.pointed responded).1, rfl, rfl⟩
  · intro early late split first firstIn second secondIn ended begun
    rcases List.filterMap_eq_append_iff.mp split with ⟨before, after, whole, isEarly, isLate⟩
    rw [← isEarly] at ended
    rw [← isLate] at begun
    rw [whole] at left firstIn secondIn ⊢
    rcases mem_history_respond.mp ended with ⟨op, responded⟩
    have invoked := mem_history_invoke.mp begun
    have firstPoint : first ∈ points before := by
      apply mem_points.mpr
      rcases List.mem_append.mp (mem_points.mp firstIn) with here | there
      · exact here
      · have none := mem_ofCall there
        rw [Label.call, left.past responded] at none
        cases none
    have secondPoint : second ∈ points after := by
      apply mem_points.mpr
      rcases List.mem_append.mp (mem_points.mp secondIn) with here | there
      · have none := mem_ofCall here
        rw [Label.call, left.future invoked] at none
        cases none
      · exact there
    rw [points, List.filterMap_append, ← points, ← points]
    exact (List.singleton_sublist.mpr firstPoint).append (List.singleton_sublist.mpr secondPoint)

end Discipline

section Systems

inductive Executes (step : C → Option (Label I Op Ret) → C → Prop) (start : C) :
    List (Label I Op Ret) → C → Prop
  | nil : Executes step start [] start
  | silent {trace : List (Label I Op Ret)} {middle final : C}
      (earlier : Executes step start trace middle) (moved : step middle none final) :
      Executes step start trace final
  | labelled {trace : List (Label I Op Ret)} {middle final : C} {label : Label I Op Ret}
      (earlier : Executes step start trace middle) (moved : step middle (some label) final) :
      Executes step start (trace ++ [label]) final

variable [DecidableEq I]

/-- A system follows a specification: a point is a step of it, and whatever else
happens leaves it where it is. -/
structure Follows (step : C → Option (Label I Op Ret) → C → Prop)
    (serves : S → Op → Ret → S → Prop) (related : C → S → Prop) (stage : C → I → Stage Op Ret) :
    Prop where
  silent : ∀ {state after : C} {spec : S}, related state spec → step state none after →
    related after spec ∧ stage after = stage state
  stages : ∀ {state after : C} {spec : S} {label : Label I Op Ret}, related state spec →
    step state (some label) after → label.Moves (stage state) (stage after)
  invoke : ∀ {state after : C} {spec : S} {call : I} {op : Op}, related state spec →
    step state (some (.invoke call op)) after → related after spec
  point : ∀ {state after : C} {spec : S} {call : I} {op : Op} {ret : Ret}, related state spec →
    step state (some (.point call op ret)) after →
      ∃ next, serves spec op ret next ∧ related after next
  respond : ∀ {state after : C} {spec : S} {call : I} {op : Op} {ret : Ret},
    related state spec → step state (some (.respond call op ret)) after → related after spec

variable {step : C → Option (Label I Op Ret) → C → Prop} {serves : S → Op → Ret → S → Prop}
  {related : C → S → Prop} {stage : C → I → Stage Op Ret}

/-- Induction over the run: the points so far replay to the related state. -/
theorem Follows.executes (follows : Follows step serves related stage) {start final : C} {spec : S}
    {trace : List (Label I Op Ret)} (begins : related start spec)
    (idle : ∀ call, stage start call = .idle) (run : Executes step start trace final) :
    ∃ reached, related final reached ∧ Replays serves spec (points trace) reached ∧
      Left trace (stage final) := by
  induction run with
  | nil =>
      refine ⟨spec, begins, .nil, ?_⟩
      intro call
      rw [idle call]
      rfl
  | silent _ moved ih =>
      rcases ih with ⟨reached, relates, legal, left⟩
      rcases follows.silent relates moved with ⟨next, same⟩
      rw [← same] at left
      exact ⟨reached, next, legal, left⟩
  | @labelled trace middle final label _ moved ih =>
      rcases ih with ⟨reached, relates, legal, left⟩
      have later := left.snoc (follows.stages relates moved)
      cases label with
      | invoke call op =>
          refine ⟨reached, follows.invoke relates moved, ?_, later⟩
          rw [points, List.filterMap_append]
          exact (List.append_nil (points trace)).symm ▸ legal
      | point call op ret =>
          rcases follows.point relates moved with ⟨next, served, relatesNext⟩
          refine ⟨next, relatesNext, ?_, later⟩
          rw [points, List.filterMap_append]
          exact .snoc legal served
      | respond call op ret =>
          refine ⟨reached, follows.respond relates moved, ?_, later⟩
          rw [points, List.filterMap_append]
          exact (List.append_nil (points trace)).symm ▸ legal

theorem Follows.linearizable (follows : Follows step serves related stage) {start final : C}
    {spec : S} {trace : List (Label I Op Ret)} (begins : related start spec)
    (idle : ∀ call, stage start call = .idle) (run : Executes step start trace final) :
    ∃ reached, related final reached ∧
      Linearization serves spec (history trace) (points trace) reached := by
  rcases follows.executes begins idle run with ⟨reached, relates, legal, left⟩
  exact ⟨reached, relates, left.linearization legal⟩

end Systems

end VectorVault.Linearizability
