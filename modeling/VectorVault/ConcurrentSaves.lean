import VectorVault.SaveSteps

/-! Any number of saves at once, to one target.

No two calls write the same temporary file, and a rename is reached only when the
file holds the whole image. So the target never holds anything but its first
content or an image, whatever fails and wherever the process stops. -/

namespace VectorVault

section Names

theorem decimal_eq (value : Nat) :
    decimal value = (Nat.toDigits 10 value).map (fun char => UInt8.ofNat char.toNat) := by
  have digits : (toString value).toList = Nat.toDigits 10 value := Nat.toList_repr
  rw [decimal, text, digits]

theorem digit_range {char : Char} {value : Nat} (member : char ∈ Nat.toDigits 10 value) :
    48 ≤ char.toNat ∧ char.toNat ≤ 57 := by
  have digit := Nat.isDigit_of_mem_toDigits (by decide) (by decide) member
  simp only [Char.isDigit, Bool.and_eq_true, decide_eq_true_eq] at digit
  exact digit

theorem decimal_injective {first second : Nat} (same : decimal first = decimal second) :
    first = second := by
  have restored : ∀ value, (decimal value).map (fun byte => Char.ofNat byte.toNat) =
      Nat.toDigits 10 value := by
    intro value
    rw [decimal_eq, List.map_map]
    apply (List.map_congr_left _).trans (List.map_id _)
    intro char member
    have range := digit_range member
    simp only [Function.comp, id]
    rw [UInt8.toNat_ofNat_of_lt' (Nat.lt_of_le_of_lt range.2 (by decide)), Char.ofNat_toNat]
  have digits : Nat.toDigits 10 first = Nat.toDigits 10 second := by
    rw [← restored first, ← restored second, same]
  calc first
      = Nat.ofDigitChars 10 (Nat.toDigits 10 first) 0 := Nat.ofDigitChars_ten_toDigits.symm
    _ = Nat.ofDigitChars 10 (Nat.toDigits 10 second) 0 := by rw [digits]
    _ = second := Nat.ofDigitChars_ten_toDigits

theorem dash_not_mem_decimal (value : Nat) : (45 : UInt8) ∉ decimal value := by
  intro member
  rw [decimal_eq] at member
  obtain ⟨char, digit, same⟩ := List.mem_map.mp member
  have range := digit_range digit
  have code := congrArg UInt8.toNat same
  rw [UInt8.toNat_ofNat_of_lt' (Nat.lt_of_le_of_lt range.2 (by decide))] at code
  have dash : (45 : UInt8).toNat = 45 := rfl
  omega

theorem append_separator_inj {α : Type} {separator : α} {front front' back back' : List α}
    (without : separator ∉ front) (without' : separator ∉ front')
    (same : front ++ separator :: back = front' ++ separator :: back') :
    front = front' ∧ back = back' := by
  induction front generalizing front' with
  | nil =>
      cases front' with
      | nil => exact ⟨rfl, (List.cons.inj same).2⟩
      | cons head rest =>
          have equal := (List.cons.inj same).1
          rw [equal] at without'
          exact absurd List.mem_cons_self without'
  | cons head rest ih =>
      cases front' with
      | nil =>
          have equal := (List.cons.inj same).1
          rw [← equal] at without
          exact absurd List.mem_cons_self without
      | cons head' rest' =>
          have equal := List.cons.inj same
          have later := ih (fun member => without (List.mem_cons_of_mem head member))
            (fun member => without' (List.mem_cons_of_mem head' member)) equal.2
          rw [equal.1, later.1]
          exact ⟨rfl, later.2⟩

end Names

namespace PersistenceManager.Process

variable {ι : Type} (process : Process ι)

section Paths

theorem temp_injective {first second : Nat}
    (same : (process.temp first).entry = (process.temp second).entry) : first = second := by
  have names := congrArg Prod.snd same
  simp only [Path.entry, temp, makeTempPath, List.append_assoc, List.append_cancel_left_eq] at names
  have dash : text "-" = [45] := rfl
  rw [dash, List.singleton_append, List.singleton_append] at names
  obtain ⟨readings, numbers⟩ := append_separator_inj (dash_not_mem_decimal _)
    (dash_not_mem_decimal _) names
  by_contra distinct
  exact process.clock.advances first second distinct (decimal_injective numbers)
    (decimal_injective readings)

theorem temp_ne_target (call : Nat) : (process.temp call).entry ≠ process.target.entry := by
  intro same
  have names := congrArg (fun entry => entry.2.length) same
  have suffix : (text ".vvtmp-").length = 7 := rfl
  simp only [Path.entry, temp, makeTempPath, List.length_append, suffix] at names
  omega

end Paths

/-- What the temporary file of a call holds, where the call stands. `before` are
the files the process found. -/
def Holds (before files : Bytes × Bytes → Option Bytes) (save : ι) : Phase → Prop
  | .waiting | .writing _ | .flushing _ | .closing _ false => True
  | .opening call => files (process.temp call).entry = before (process.temp call).entry
  | .syncing call | .closing call true | .moving call =>
      files (process.temp call).entry = some (process.saves save).image
  | .removing _ error => error.category = .writeFailure
  | .moved call | .done call => files (process.temp call).entry = none
  | .refused call error =>
      error.category = .writeFailure ∧
        files (process.temp call).entry = before (process.temp call).entry
  | .failed call error removed =>
      error.category = .writeFailure ∧
        (removed = true → files (process.temp call).entry = none)

def Phase.Published : Phase → Prop
  | .moved _ | .done _ => True
  | _ => False

variable {process} {before files : Bytes × Bytes → Option Bytes} {save : ι} {phase : Phase}
  {call : Nat} {outcome : Outcome} {state : SaveState ι}

theorem Holds.framed (holds : process.Holds before files save phase)
    {after : Bytes × Bytes → Option Bytes}
    (same : ∀ call, phase.call? = some call →
      after (process.temp call).entry = files (process.temp call).entry) :
    process.Holds before after save phase := by
  cases phase with
  | waiting => trivial
  | opening call => exact (same call rfl).trans holds
  | writing call => trivial
  | flushing call => trivial
  | syncing call => exact (same call rfl).trans holds
  | closing call ok =>
      cases ok with
      | false => trivial
      | true => exact (same call rfl).trans holds
  | moving call => exact (same call rfl).trans holds
  | removing call error => exact holds
  | moved call => exact (same call rfl).trans holds
  | refused call error => exact ⟨holds.1, (same call rfl).trans holds.2⟩
  | failed call error removed =>
      exact ⟨holds.1, fun isRemoved => (same call rfl).trans (holds.2 isRemoved)⟩
  | done call => exact (same call rfl).trans holds

/-- What a step of a numbered call does: it touches its own temporary file, and
the target only by a rename of its whole image. -/
structure Advanced (process : Process ι) (before files : Bytes × Bytes → Option Bytes) (save : ι)
    (phase : Phase) (call : Nat) (next : Phase × (Bytes × Bytes → Option Bytes)) : Prop where
  called : next.1.call? = some call
  frame : ∀ entry, entry ≠ (process.temp call).entry → entry ≠ process.target.entry →
    next.2 entry = files entry
  holds : process.Holds before next.2 save next.1
  published : Phase.Published phase → Phase.Published next.1
  target : (next.2 process.target.entry = files process.target.entry ∧
      (Phase.Published next.1 → Phase.Published phase)) ∨
    (phase = .moving call ∧ next.1 = .moved call ∧
      next.2 process.target.entry = some (process.saves save).image)

theorem advanced_of_update {next : Phase} {content : Option Bytes}
    (isCall : next.call? = some call)
    (holds : process.Holds before (Function.update files (process.temp call).entry content) save
      next)
    (same : Phase.Published next ↔ Phase.Published phase) :
    process.Advanced before files save phase call
      (next, Function.update files (process.temp call).entry content) := by
  refine ⟨isCall, ?_, holds, same.mpr, Or.inl ⟨?_, same.mp⟩⟩
  · intro entry notTemp _
    exact Function.update_of_ne notTemp _ _
  · exact Function.update_of_ne (process.temp_ne_target call).symm _ _

theorem advanced_of_unchanged {next : Phase} (isCall : next.call? = some call)
    (holds : process.Holds before files save next)
    (same : Phase.Published next ↔ Phase.Published phase) :
    process.Advanced before files save phase call (next, files) :=
  ⟨isCall, fun _ _ _ => rfl, holds, same.mpr, Or.inl ⟨rfl, same.mp⟩⟩

theorem advance_spec (isCall : phase.call? = some call)
    (holds : process.Holds before files save phase) (outcome : Outcome) :
    process.Advanced before files save phase call
      (process.advance (process.saves save).image outcome files phase) := by
  cases phase with
  | waiting => cases isCall
  | opening call =>
      cases isCall
      simp only [advance]
      split
      · exact advanced_of_update rfl trivial Iff.rfl
      · exact advanced_of_unchanged rfl ⟨rfl, holds⟩ Iff.rfl
  | writing call =>
      cases isCall
      simp only [advance]
      split
      · exact advanced_of_update rfl trivial Iff.rfl
      · exact advanced_of_update rfl trivial Iff.rfl
  | flushing call =>
      cases isCall
      simp only [advance]
      split
      · exact advanced_of_update rfl (Function.update_self _ _ _) Iff.rfl
      · exact advanced_of_update rfl trivial Iff.rfl
  | syncing call =>
      cases isCall
      simp only [advance]
      cases outcome.succeeds with
      | true => exact advanced_of_unchanged rfl holds Iff.rfl
      | false => exact advanced_of_unchanged rfl trivial Iff.rfl
  | closing call ok =>
      cases isCall
      cases ok with
      | false =>
          simp only [advance]
          exact advanced_of_update rfl rfl Iff.rfl
      | true =>
          simp only [advance]
          split
          · exact advanced_of_unchanged rfl holds Iff.rfl
          · exact advanced_of_unchanged rfl rfl Iff.rfl
  | moving call =>
      cases isCall
      have whole : files (process.temp call).entry = some (process.saves save).image := holds
      simp only [advance, whole]
      split
      · refine ⟨rfl, ?_, Function.update_self _ _ _, fun _ => trivial, Or.inr ⟨rfl, rfl, ?_⟩⟩
        · intro entry notTemp notTarget
          exact (Function.update_of_ne notTemp _ _).trans (Function.update_of_ne notTarget _ _)
        · exact (Function.update_of_ne (process.temp_ne_target call).symm _ _).trans
            (Function.update_self _ _ _)
      · exact advanced_of_unchanged rfl rfl Iff.rfl
  | removing call error =>
      cases isCall
      simp only [advance]
      cases outcome.succeeds with
      | true => exact advanced_of_update rfl ⟨holds, fun _ => Function.update_self _ _ _⟩ Iff.rfl
      | false =>
          exact advanced_of_unchanged rfl ⟨holds, fun impossible => by (cases impossible)⟩ Iff.rfl
  | moved call =>
      cases isCall
      exact advanced_of_unchanged rfl holds Iff.rfl
  | refused call error =>
      cases isCall
      exact advanced_of_unchanged rfl holds Iff.rfl
  | failed call error removed =>
      cases isCall
      exact advanced_of_unchanged rfl holds Iff.rfl
  | done call =>
      cases isCall
      exact advanced_of_unchanged rfl holds Iff.rfl

section Runs

variable [DecidableEq ι]

structure Consistent (process : Process ι) (before : Bytes × Bytes → Option Bytes)
    (state : SaveState ι) : Prop where
  numbered : ∀ save call, (state.phase save).call? = some call → call < state.counter
  distinct : ∀ first second call, (state.phase first).call? = some call →
    (state.phase second).call? = some call → first = second
  holds : ∀ save, process.Holds before state.files save (state.phase save)
  unused : ∀ call, state.counter ≤ call →
    state.files (process.temp call).entry = before (process.temp call).entry
  target : state.files process.target.entry = before process.target.entry ∨
    ∃ save, state.files process.target.entry = some (process.saves save).image

omit [DecidableEq ι] in
theorem start_consistent (before : Bytes × Bytes → Option Bytes) :
    process.Consistent before (start before) :=
  ⟨fun _ _ isCall => by (cases isCall), fun _ _ _ isCall => by (cases isCall), fun _ => trivial,
    fun _ _ => rfl, Or.inl rfl⟩

/-- What an event can do: nothing but stop the process or take a number, give a
waiting call its number, or take a numbered call one step on. -/
theorem step_cases (state : SaveState ι) (event : Event ι) :
    ((process.step state event).files = state.files ∧
      (process.step state event).phase = state.phase ∧
      state.counter ≤ (process.step state event).counter) ∨
    (∃ save outcome, event = .perform save outcome ∧ (state.phase save).call? = none ∧
      process.step state event =
        { state with
          counter := state.counter + 1
          phase := Function.update state.phase save (.opening state.counter) }) ∨
    ∃ save outcome call, event = .perform save outcome ∧
      (state.phase save).call? = some call ∧
      process.step state event =
        { state with
          files := (process.advance (process.saves save).image outcome state.files
            (state.phase save)).2
          phase := Function.update state.phase save
            (process.advance (process.saves save).image outcome state.files
              (state.phase save)).1 } := by
  cases event with
  | stop => exact Or.inl ⟨rfl, rfl, le_rfl⟩
  | elsewhere =>
      left
      simp only [step]
      split
      · exact ⟨rfl, rfl, le_rfl⟩
      · exact ⟨rfl, rfl, Nat.le_succ _⟩
  | perform save outcome =>
      by_cases stopped : state.stopped = true
      · left
        simp only [step, stopped, if_true]
        exact ⟨trivial, trivial, le_rfl⟩
      · right
        simp only [step, if_neg stopped]
        cases called : (state.phase save).call? with
        | none => exact Or.inl ⟨save, outcome, rfl, called, rfl⟩
        | some call => exact Or.inr ⟨save, outcome, call, rfl, called, rfl⟩

theorem Consistent.advanced (consistent : process.Consistent before state)
    (called : (state.phase save).call? = some call)
    {next : Phase × (Bytes × Bytes → Option Bytes)}
    (advanced : process.Advanced before state.files save (state.phase save) call next) :
    process.Consistent before
      { state with files := next.2, phase := Function.update state.phase save next.1 } := by
  have calls : ∀ other number, (Function.update state.phase save next.1 other).call? = some number →
      (state.phase other).call? = some number := by
    intro other number isNumber
    by_cases same : other = save
    · rw [same, Function.update_self, advanced.called] at isNumber
      rw [same, called, isNumber]
    · rw [Function.update_of_ne same] at isNumber
      exact isNumber
  refine ⟨?_, ?_, ?_, ?_, ?_⟩
  · intro other number isNumber
    exact consistent.numbered other number (calls other number isNumber)
  · intro first second number isFirst isSecond
    exact consistent.distinct first second number (calls first number isFirst)
      (calls second number isSecond)
  · intro other
    by_cases same : other = save
    · rw [same]
      simp only [Function.update_self]
      exact advanced.holds
    · simp only [Function.update_of_ne same]
      apply (consistent.holds other).framed
      intro number isNumber
      apply advanced.frame _ _ (process.temp_ne_target number)
      intro shared
      have equal := process.temp_injective shared
      rw [equal] at isNumber
      exact same (consistent.distinct other save call isNumber called)
  · intro number fresh
    refine (advanced.frame _ ?_ (process.temp_ne_target number)).trans
      (consistent.unused number fresh)
    intro shared
    have used := consistent.numbered save call called
    have equal := process.temp_injective shared
    simp only at fresh
    omega
  · rcases advanced.target with ⟨same, _⟩ | ⟨_, _, placed⟩
    · simp only [same]
      exact consistent.target
    · exact Or.inr ⟨save, placed⟩

theorem step_consistent (consistent : process.Consistent before state) (event : Event ι) :
    process.Consistent before (process.step state event) := by
  rcases step_cases state event with ⟨files, phase, counter⟩ | ⟨save, outcome, _, waits, after⟩ |
    ⟨save, outcome, call, _, called, after⟩
  · refine ⟨?_, ?_, ?_, ?_, ?_⟩
    · rw [phase]
      exact fun save call isCall => (consistent.numbered save call isCall).trans_le counter
    · rw [phase]
      exact consistent.distinct
    · rw [files, phase]
      exact consistent.holds
    · rw [files]
      exact fun call fresh => consistent.unused call (counter.trans fresh)
    · rw [files]
      exact consistent.target
  · rw [after]
    have calls : ∀ other number,
        (Function.update state.phase save (.opening state.counter) other).call? = some number →
          (other = save ∧ number = state.counter) ∨ (state.phase other).call? = some number := by
      intro other number isNumber
      by_cases same : other = save
      · rw [same, Function.update_self] at isNumber
        exact Or.inl ⟨same, (Option.some.inj isNumber).symm⟩
      · rw [Function.update_of_ne same] at isNumber
        exact Or.inr isNumber
    refine ⟨?_, ?_, ?_, ?_, consistent.target⟩
    · intro other number isNumber
      rcases calls other number isNumber with ⟨_, fresh⟩ | known
      · exact Nat.lt_succ_of_le fresh.le
      · exact Nat.lt_succ_of_lt (consistent.numbered other number known)
    · intro first second number isFirst isSecond
      rcases calls first number isFirst with ⟨one, fresh⟩ | known
      · rcases calls second number isSecond with ⟨other, _⟩ | other
        · rw [one, other]
        · have used := consistent.numbered second number other
          omega
      · rcases calls second number isSecond with ⟨_, fresh⟩ | other
        · have used := consistent.numbered first number known
          omega
        · exact consistent.distinct first second number known other
    · intro other
      by_cases same : other = save
      · rw [same]
        simp only [Function.update_self]
        exact consistent.unused state.counter le_rfl
      · simp only [Function.update_of_ne same]
        exact consistent.holds other
    · intro number fresh
      exact consistent.unused number ((Nat.le_succ _).trans fresh)
  · rw [after]
    exact consistent.advanced called (advance_spec called (consistent.holds save) outcome)

theorem run_consistent (before : Bytes × Bytes → Option Bytes) (events : List (Event ι)) :
    process.Consistent before (process.run (start before) events) := by
  induction events using List.reverseRecOn with
  | nil => exact start_consistent before
  | append_singleton events event ih =>
      rw [run, List.foldl_append]
      exact step_consistent ih event

/-- The step that puts the image of a save in place: its rename. -/
structure Publishes (process : Process ι) (state : SaveState ι) (event : Event ι) (save : ι) :
    Prop where
  performs : ∃ outcome, event = .perform save outcome
  whole : ∃ call, state.phase save = .moving call ∧
    state.files (process.temp call).entry = some (process.saves save).image
  placed : (process.step state event).files process.target.entry =
    some (process.saves save).image
  published : Phase.Published ((process.step state event).phase save)

theorem step_publishes (consistent : process.Consistent before state) (event : Event ι) :
    ((process.step state event).files process.target.entry = state.files process.target.entry ∧
      ∀ save, Phase.Published ((process.step state event).phase save) ↔
        Phase.Published (state.phase save)) ∨
    ∃ save, process.Publishes state event save ∧
      ∀ other, other ≠ save → (process.step state event).phase other = state.phase other := by
  rcases step_cases state event with ⟨files, phase, _⟩ | ⟨save, outcome, _, waits, after⟩ |
    ⟨save, outcome, call, performs, called, after⟩
  · left
    rw [files, phase]
    exact ⟨rfl, fun _ => Iff.rfl⟩
  · left
    rw [after]
    refine ⟨rfl, ?_⟩
    intro other
    by_cases same : other = save
    · rw [same]
      simp only [Function.update_self]
      cases here : state.phase save with
      | waiting => exact Iff.rfl
      | _ =>
          rw [here] at waits
          cases waits
    · simp only [Function.update_of_ne same]
  · have advanced := advance_spec called (consistent.holds save) outcome
    rcases advanced.target with ⟨unchanged, back⟩ | ⟨moving, moved, placed⟩
    · left
      rw [after]
      refine ⟨unchanged, ?_⟩
      intro other
      by_cases same : other = save
      · rw [same]
        simp only [Function.update_self]
        exact ⟨back, advanced.published⟩
      · simp only [Function.update_of_ne same]
    · right
      have whole := consistent.holds save
      rw [moving] at whole
      refine ⟨save, ⟨⟨outcome, performs⟩, ⟨call, moving, whole⟩, ?_, ?_⟩, ?_⟩
      · rw [after]
        exact placed
      · rw [after]
        simp only [Function.update_self, moved]
        trivial
      · intro other distinct
        rw [after]
        simp only [Function.update_of_ne distinct]

theorem run_published (consistent : process.Consistent before state) (events : List (Event ι))
    (published : Phase.Published (state.phase save)) :
    Phase.Published ((process.run state events).phase save) := by
  induction events generalizing state with
  | nil => exact published
  | cons event rest ih =>
      apply ih (step_consistent consistent event)
      rcases step_publishes consistent event with ⟨_, same⟩ | ⟨publisher, publishes, others⟩
      · exact (same save).mpr published
      · by_cases isPublisher : save = publisher
        · rw [isPublisher]
          exact publishes.published
        · rw [others save isPublisher]
          exact published

theorem run_publishes (events : List (Event ι))
    (published : Phase.Published ((process.run (start before) events).phase save)) :
    ∃ earlier event later, events = earlier ++ event :: later ∧
      process.Publishes (process.run (start before) earlier) event save := by
  induction events using List.reverseRecOn with
  | nil => cases published
  | append_singleton events event ih =>
      by_cases already : Phase.Published ((process.run (start before) events).phase save)
      · obtain ⟨earlier, step_, later, split, publishes⟩ := ih already
        exact ⟨earlier, step_, later ++ [event], by rw [split, List.append_assoc]; rfl, publishes⟩
      · have stepped : process.run (start before) (events ++ [event]) =
            process.step (process.run (start before) events) event := by
          rw [run, run, List.foldl_append]
          rfl
        rw [stepped] at published
        rcases step_publishes (run_consistent before events) event with
          ⟨_, same⟩ | ⟨publisher, publishes, others⟩
        · exact absurd ((same save).mp published) already
        · by_cases isPublisher : save = publisher
          · rw [isPublisher]
            exact ⟨events, event, [], rfl, publishes⟩
          · rw [others save isPublisher] at published
            exact absurd published already

/-- What a save that has returned an error did with its temporary file: it made
none, or tried to remove it, and `removed` says whether that worked. -/
inductive Discarded (process : Process ι) (before files : Bytes × Bytes → Option Bytes) :
    Phase → Prop where
  | refused {call : Nat} {error : Error}
      (same : files (process.temp call).entry = before (process.temp call).entry) :
      Discarded process before files (.refused call error)
  | failed {call : Nat} {error : Error} {removed : Bool}
      (gone : removed = true → files (process.temp call).entry = none) :
      Discarded process before files (.failed call error removed)

/-- The target through a run, and what the calls that have returned did to it. -/
structure Atomic (process : Process ι) (before : Bytes × Bytes → Option Bytes)
    (events : List (Event ι)) : Prop where
  target : ∀ earlier later, events = earlier ++ later →
    (process.run (start before) earlier).files process.target.entry =
        before process.target.entry ∨
      ∃ save, (process.run (start before) earlier).files process.target.entry =
        some (process.saves save).image
  failure : ∀ save error,
    ((process.run (start before) events).phase save).status? = some (.error error) →
      error.category = .writeFailure ∧
      (∀ earlier outcome later, events = earlier ++ .perform save outcome :: later →
        (process.run (start before) (earlier ++ [.perform save outcome])).files
            process.target.entry =
          (process.run (start before) earlier).files process.target.entry) ∧
      process.Discarded before (process.run (start before) events).files
        ((process.run (start before) events).phase save)
  success : ∀ save,
    ((process.run (start before) events).phase save).status? = some (.ok ()) →
      ∃ earlier event later, events = earlier ++ event :: later ∧
        process.Publishes (process.run (start before) earlier) event save

/-- Whatever the calls of a process do, in whatever order, and whatever fails. -/
theorem run_atomic (process : Process ι) (before : Bytes × Bytes → Option Bytes)
    (events : List (Event ι)) : process.Atomic before events := by
  have consistent := @run_consistent ι process _ before events
  refine ⟨?_, ?_, ?_⟩
  · intro earlier later _
    exact (run_consistent before earlier).target
  · intro save error returned
    have holds := consistent.holds save
    have unpublished : ¬ Phase.Published ((process.run (start before) events).phase save) := by
      intro published
      cases here : (process.run (start before) events).phase save with
      | done call =>
          rw [here] at returned
          cases returned
      | moved call =>
          rw [here] at returned
          cases returned
      | _ =>
          rw [here] at published
          exact published
    have fate : error.category = .writeFailure ∧ process.Discarded before
        (process.run (start before) events).files
        ((process.run (start before) events).phase save) := by
      cases here : (process.run (start before) events).phase save with
      | refused call reason =>
          rw [here] at returned holds
          cases returned
          exact ⟨holds.1, .refused holds.2⟩
      | failed call reason removed =>
          rw [here] at returned holds
          cases returned
          exact ⟨holds.1, .failed holds.2⟩
      | _ =>
          rw [here] at returned
          cases returned
    refine ⟨fate.1, ?_, fate.2⟩
    intro earlier outcome later split
    have stepped : process.run (start before) (earlier ++ [.perform save outcome]) =
        process.step (process.run (start before) earlier) (.perform save outcome) := by
      rw [run, run, List.foldl_append]
      rfl
    rw [stepped]
    rcases step_publishes (run_consistent before earlier) (.perform save outcome) with
      ⟨same, _⟩ | ⟨publisher, publishes, _⟩
    · exact same
    · -- It published, so it would have published at the end.
      obtain ⟨_, isEvent⟩ := publishes.performs
      cases isEvent
      have final := run_published (step_consistent (run_consistent before earlier) _) later
        publishes.published
      rw [split, run, List.foldl_append] at unpublished
      exact absurd final unpublished
  · intro save returned
    apply run_publishes
    cases here : (process.run (start before) events).phase save with
    | done call => trivial
    | _ =>
        rw [here] at returned
        cases returned

end Runs

theorem run_frame [DecidableEq ι] (process : Process ι) (before : Bytes × Bytes → Option Bytes)
    (events : List (Event ι)) {entry : Bytes × Bytes} (notTarget : entry ≠ process.target.entry)
    (notTemp : ∀ call, entry ≠ (process.temp call).entry) :
    (process.run (start before) events).files entry = before entry := by
  induction events using List.reverseRecOn with
  | nil => rfl
  | append_singleton events event ih =>
      have consistent := @run_consistent ι process _ before events
      rw [run, List.foldl_append]
      change (process.step (process.run (start before) events) event).files entry = before entry
      rcases step_cases (process.run (start before) events) event with ⟨files, _, _⟩ |
        ⟨save, outcome, _, _, after⟩ | ⟨save, outcome, call, _, called, after⟩
      · rw [files, ih]
      · rw [after]
        exact ih
      · rw [after]
        exact ((advance_spec called (consistent.holds save) outcome).frame entry (notTemp call)
          notTarget).trans ih

section Alone

variable [DecidableEq ι]

def smooth (save : ι) (steps : Nat) : List (Event ι) :=
  List.replicate steps (.perform save ⟨true, 0⟩)

theorem smooth_written (process : Process ι) (before : Bytes × Bytes → Option Bytes) (save : ι) :
    process.run (start before) (smooth save 6) =
      { files := Function.update before (process.temp 0).entry (some (process.saves save).image)
        counter := 1
        phase := Function.update (fun _ => .waiting) save (.moving 0)
        stopped := false } := by
  simp [run, smooth, start, step, advance, Phase.call?, List.replicate]

/-- What `save` does when no other call runs beside it, a run of the calls does:
the same status and the same target. -/
theorem save_alone (process : Process ι) (before : Bytes × Bytes → Option Bytes) (save : ι)
    {allocator : MemoryAllocator} {collection : Collection} {outcome : SaveOutcome}
    {status : Status} {written : Option FileContent}
    (isImage : image allocator collection = .ok (process.saves save).image)
    (saved : PersistenceManager.save allocator collection process.target.string
      (process.temp 0).string outcome = .ok (status, written)) :
    ∃ outcomes : List Outcome,
      ((process.run (start before) (outcomes.map (.perform save))).phase save).status? =
        some status ∧
      (process.run (start before) (outcomes.map (.perform save))).files process.target.entry =
        match written with
        | none => before process.target.entry
        | some content => some content.bytes := by
  have refused : ((process.run (start before)
      (([⟨true, 0⟩, ⟨false, 0⟩] : List Outcome).map (.perform save))).phase save).status? =
        some (.error (process.notWritten 0)) ∧
      (process.run (start before)
        (([⟨true, 0⟩, ⟨false, 0⟩] : List Outcome).map (.perform save))).files
          process.target.entry = before process.target.entry := by
    simp [run, start, step, advance, Phase.call?, Phase.status?]
  have prepared : ∀ outcomes : List Outcome,
      process.run (start before)
          ((List.replicate 6 (⟨true, 0⟩ : Outcome) ++ outcomes).map (.perform save)) =
        process.run
          { files := Function.update before (process.temp 0).entry (some (process.saves save).image)
            counter := 1
            phase := Function.update (fun _ => .waiting) save (.moving 0)
            stopped := false } (outcomes.map (.perform save)) := by
    intro outcomes
    rw [← smooth_written, List.map_append, List.map_replicate, run, List.foldl_append]
    rfl
  have apart := process.temp_ne_target 0
  unfold PersistenceManager.save at saved
  rw [isImage] at saved
  cases outcome with
  | writeFailed =>
      cases saved
      exact ⟨_, refused⟩
  | renameFailed =>
      cases saved
      refine ⟨List.replicate 6 ⟨true, 0⟩ ++ [⟨false, 0⟩, ⟨true, 0⟩], ?_⟩
      rw [prepared]
      simp [run, step, advance, Phase.call?, Phase.status?, notRenamed, apart.symm]
  | published =>
      simp only [bind, Except.bind] at saved
      split at saved
      · cases saved
        refine ⟨List.replicate 6 ⟨true, 0⟩ ++ [⟨true, 0⟩, ⟨true, 0⟩], ?_⟩
        rw [prepared]
        simp [run, step, advance, Phase.call?, Phase.status?, apart.symm]
      · cases saved
        exact ⟨_, refused⟩

end Alone

end PersistenceManager.Process

end VectorVault
