import VectorVault.PyRecords

/-! How long a handle lasts.

From the call that hands it out until its collection is deleted or the engine is gone,
a handle is one of the same collection, and calls on it come through. -/

namespace VectorVault.Python

open MemoryAllocator Collection PersistenceManager
open Concurrent (Settled)
open Durable (Store Transacts Holds)

section Lasting

variable {D : Type} [LinearOrder D] [OrderTop D] {host : Host D} {world after : World}
  {before visible : Visible} {events later : List (Event D)} {event : Event D} {call : PyCall}
  {self : Nat} {name : Bytes}

/-- An event that handles of the collection `name` do not outlast. -/
def Ends (name : Bytes) : Event D → Prop
  | .restart => True
  | .call (.deleteCollection old) (.ok _) => old.cast = name
  | _ => False

variable (host) in
/-- What a program goes on with, from a world of its own. -/
inductive Continues : World → List (Event D) → World → Prop
  | done {world : World} : Continues world [] world
  | step {world next after : World} {event : Event D} {later : List (Event D)}
      (goes : Goes host world event next) (rest : Continues next later after) :
      Continues world (event :: later) after

theorem Continues.session (continued : Continues host world later after)
    (earlier : Session host events world) : Session host (events ++ later) after := by
  induction continued generalizing events with
  | done =>
      rw [List.append_nil]
      exact earlier
  | step goes rest ih =>
      rw [List.append_cons]
      exact ih (earlier.step goes)

theorem transacts_contains {store after : Store} {command : Command} {status : Status}
    (transacts : Transacts host store command status after)
    (present : store.collections.contains name = true)
    (stays : ∀ fault, command ≠ .deleteCollection name fault) :
    after.collections.contains name = true := by
  have inserted : ∀ (other : Bytes) (entry : Concurrent.Entry),
      (store.collections.insert other entry).contains name = true := by
    intro other entry
    rw [OrderedMap.contains, OrderedMap.find_insert]
    split
    · rfl
    · exact present
  cases transacts with
  | @deleted old _ =>
      have apart : name ≠ old := fun same => stays false (by rw [same])
      rw [OrderedMap.contains, OrderedMap.find_erase_of_ne _ apart]
      exact present
  | created => exact inserted _ _
  | updated => exact inserted _ _
  | loaded => exact inserted _ _
  | invalid | taken | unknown | faulted | queried | saved | unsaved | unread | collided =>
      exact present

theorem deletes_of_asks {target old : Bytes} {fault : Bool}
    (asks : commandOf target call = .ok (some (.deleteCollection old fault))) :
    ∃ given, call = .deleteCollection given ∧ given.cast = old := by
  cases call with
  | deleteCollection given =>
      cases asks
      exact ⟨given, rfl, rfl⟩
  | createCollection | insert | insertBatch | buildIndex | query =>
      rcases bind_ok asks with ⟨_, _, same⟩
      cases same
  | save | load | delete => cases asks
  | getCollection | listCollections | get | count | indexType => cases asks

theorem Does.lasts {result : Except Raised (Answer D)} (does : Does host before call result visible)
    (leads : before.handles self = some name)
    (present : before.store.collections.contains name = true)
    (stays : ¬ Ends name (.call call (result.mapError translate))) :
    visible.handles self = some name ∧ visible.store.collections.contains name = true := by
  cases does with
  | done _ asks quiet does =>
      have contains := transacts_contains does present (by
        intro fault same
        rw [same] at asks
        rcases deletes_of_asks asks with ⟨given, isDelete, isName⟩
        rw [isDelete] at stays
        exact stays isName)
      exact ⟨kept_iff.mpr ⟨leads, contains⟩, contains⟩
  | @handed _ target new command after other asks opens does absent _ fresh =>
      have contains := transacts_contains does present (by
        intro fault same
        rw [same] at asks
        rcases deletes_of_asks asks with ⟨given, isDelete, _⟩
        rw [isDelete] at opens
        exact opens)
      have apart : self ≠ other := by
        intro same
        rw [same, fresh] at leads
        cases leads
      exact ⟨(Function.update_of_ne apart _ _).trans (kept_iff.mpr ⟨leads, contains⟩), contains⟩
  | refused | threw | unknown | found | listed | missing | got | counted | typed | answered =>
      exact ⟨leads, present⟩

theorem Does.hands (does : Does host before call (.ok (.collection self)) visible) :
    ∃ name, visible.handles self = some name ∧ visible.store.collections.contains name = true ∧
      (∀ given dim metric, call = .createCollection given dim metric → name = given.cast) ∧
      ∀ given, call = .getCollection given → name = given.cast := by
  cases does with
  | @handed _ target new command after self asks opens does absent present fresh =>
      refine ⟨new, Function.update_self _ _ _, present, ?_, ?_⟩
      · intro given dim metric isCreate
        rw [isCreate] at asks
        rcases bind_ok asks with ⟨parsed, _, same⟩
        cases same
        cases does with
        | created =>
            by_contra apart
            rw [OrderedMap.contains, OrderedMap.find_insert_of_ne _ _ apart, absent] at present
            cases present
        | updated updates => cases updates
      · intro given isGet
        rw [isGet] at opens
        exact absurd opens not_false
  | @found given self present leads =>
      refine ⟨given.cast, leads, present, ?_, ?_⟩
      · intro other dim metric isCreate
        cases isCreate
      · intro other isGet
        cases isGet
        rfl

theorem Goes.lasts (goes : Goes host world event after) (earlier : Session host events world)
    (here : HandleOf world.engine self name) (stays : ¬ Ends name event) :
    HandleOf after.engine self name := by
  cases goes with
  | restart capacity garbage => exact absurd trivial stays
  | call spoken done within =>
      rcases earlier.depicts with ⟨visible, _, depicts⟩
      rcases bind_ok done with ⟨⟨result, reached⟩, performed, same⟩
      cases same
      rcases perform_does depicts earlier.within spoken performed with ⟨visible', does, depicts'⟩
      have present : visible.store.collections.contains name = true := by
        rw [depicts.holds.known.contains]
        exact here.contains
      have leads := does.lasts ((depicts.handles self name).mpr here) present stays
      exact (depicts'.handles self name).mp leads.1

/-- Induction over the events since the handle was handed out. -/
theorem Continues.lasts (continued : Continues host world later after)
    (earlier : Session host events world) (here : HandleOf world.engine self name)
    (stay : ∀ event ∈ later, ¬ Ends name event) : HandleOf after.engine self name := by
  induction continued generalizing events with
  | done => exact here
  | @step _ _ _ event _ goes rest ih =>
      have next := goes.lasts earlier here (stay event List.mem_cons_self)
      exact ih (earlier.step goes) next
        (fun other member => stay other (List.mem_cons_of_mem _ member))

theorem execute_comes_through (holds : Holds world visible.store)
    (within : world.engine.Within Storable) {command : Command} (own : command.Own)
    (unsearched : ∀ name q k params, command ≠ .query name q k params) :
    ∃ result after, execute host world command = .ok (result, after) := by
  rcases holds.comes_through host within own unsearched with ⟨status, after, done⟩
  rw [execute, done]
  exact ⟨(unwrap status).map (fun _ => .object .none), after, rfl⟩

omit [LinearOrder D] [OrderTop D] in
theorem converting_comes_through {A : Type} {converted : Except Raised A}
    {use : A → Except Broken (Performed D)}
    (used : ∀ value, ∃ result after, use value = .ok (result, after)) :
    ∃ result after, converting world converted use = .ok (result, after) := by
  cases converted with
  | error raised => exact ⟨_, _, rfl⟩
  | ok value => exact used value

theorem perform_comes_through (depicts : Depicts world visible)
    (within : world.engine.Within Storable) (leads : visible.handles self = some name)
    (handled : call.self? = some self)
    (unsearched : ∀ self vector k kwargs, call ≠ .query self vector k kwargs) :
    ∃ result after, perform host world call = .ok (result, after) := by
  rcases (registered_iff depicts.holds.owned).mpr ((depicts.handles self name).mp leads) with
    ⟨collection, found⟩
  rcases depicts.follow found with ⟨_, entry, _, settled⟩
  have followed : ∀ {A : Type} (use : Bytes → Collection → Except Broken A),
      following world self use = use name collection := by
    intro A use
    rw [following, found]
  cases call with
  | insert _ id vector metadata =>
      cases handled
      apply converting_comes_through
      rintro ⟨v, m⟩
      simp only [followed]
      exact execute_comes_through depicts.holds within trivial (fun _ _ _ _ same => by cases same)
  | insertBatch _ records =>
      cases handled
      apply converting_comes_through
      intro inputs
      simp only [followed]
      exact execute_comes_through depicts.holds within trivial (fun _ _ _ _ same => by cases same)
  | buildIndex _ type kwargs =>
      cases handled
      apply converting_comes_through
      rintro ⟨t, params⟩
      simp only [followed]
      exact execute_comes_through depicts.holds within trivial (fun _ _ _ _ same => by cases same)
  | delete _ id =>
      cases handled
      rw [perform, followed]
      exact execute_comes_through depicts.holds within trivial (fun _ _ _ _ same => by cases same)
  | get _ id =>
      cases handled
      rw [perform, get, followed, settled.shows id.cast]
      exact ⟨_, _, rfl⟩
  | count _ =>
      cases handled
      rw [perform, followed]
      exact ⟨_, _, rfl⟩
  | indexType _ =>
      cases handled
      rw [perform, followed]
      exact ⟨_, _, rfl⟩
  | query _ vector k kwargs => exact absurd rfl (unsearched _ _ _ _)
  | createCollection | getCollection | listCollections | deleteCollection | save | load =>
      cases handled

/-- The handle a call returns is one of a single collection; until that is deleted or the
engine is gone it stays so, and calls on it that do not search come through. -/
theorem handle_lasts {handing : World}
    (handed : Session host (events ++ [.call call (.ok (.collection self))]) handing)
    (continued : Continues host handing later world) :
    ∃ name, (∀ other, HandleOf handing.engine self other ↔ other = name) ∧
      (∀ given dim metric, call = .createCollection given dim metric → name = given.cast) ∧
      (∀ given, call = .getCollection given → name = given.cast) ∧
      ((∀ event ∈ later, ¬ Ends name event) → HandleOf world.engine self name ∧
        ∀ next : PyCall, next.self? = some self →
          (∀ self vector k kwargs, next ≠ .query self vector k kwargs) →
            ∃ result after, invoke host world next = .ok (result, after)) := by
  rcases handed.depicts with ⟨visible, traced, depicts⟩
  rcases traced_returned traced with ⟨before, _, does⟩
  rcases does.hands with ⟨name, leads, _, created, found⟩
  have here := (depicts.handles self name).mp leads
  have only : ∀ other, HandleOf handing.engine self other ↔ other = name := by
    intro other
    constructor
    · exact fun there => there.unique depicts.holds.owned here
    · intro same
      rw [same]
      exact here
  refine ⟨name, only, created, found, fun stay => ?_⟩
  have lasts := continued.lasts handed here stay
  refine ⟨lasts, ?_⟩
  intro next handled unsearched
  have session := continued.session handed
  rcases session.depicts with ⟨visible', _, depicts'⟩
  have leads := (depicts'.handles self name).mpr lasts
  have comes : ∃ result after, perform host world next = .ok (result, after) :=
    perform_comes_through depicts' session.within leads handled unsearched
  rcases comes with ⟨result, after, done⟩
  unfold invoke
  rw [done]
  exact ⟨result.mapError translate, after, rfl⟩

def handle? : Answer D → Option Nat
  | .collection self => some self
  | _ => none

omit [LinearOrder D] [OrderTop D] in
theorem handle_eq {answer : Answer D} (isHandle : handle? answer = some self) :
    answer = .collection self := by
  unfold handle? at isHandle
  split at isHandle
  · cases isHandle
    rfl
  · cases isHandle

/-- The handle of a collection that has been loaded, after another has been deleted. -/
theorem handle_lasts_of_loaded :
    ∃ (events : List (Event (WithTop Nat))) (world : World),
      Session (ExactLine.host []) events world ∧
      .call (.load (.str "p")) (.ok (.collection 2)) ∈ events ∧
      HandleOf world.engine 2 (encode "a") ∧
      world.engine.collections.contains (encode "b") = false := by
  have told : (follow (ExactLine.host []) (World.new 128 (fun _ => 0))
      [.createCollection (.str "a") 1 (.str "L2"),
        .save (.str "a") (.str "p") [6] .published]).any (fun saved =>
      (follow (ExactLine.host []) (saved.restart 64 (fun _ => 0))
        [.createCollection (.str "b") 2 (.str "ip")]).any (fun other =>
          (returned? (ExactLine.host []) other (.load (.str "p"))).any (fun loaded =>
            decide (handle? loaded.1 = some 2) &&
              (loaded.2.engine.collections.find? (encode "a")).any (fun named =>
                decide (named.tag = 2) &&
                  (returned? (ExactLine.host []) loaded.2 (.deleteCollection (.str "b"))).any
                    (fun final => !final.2.engine.collections.contains (encode "b")))))) = true := by
    decide +kernel
  rcases (Option.any_eq_true _ _).mp told with ⟨saved, followed, told⟩
  rcases (Option.any_eq_true _ _).mp told with ⟨other, followed', told⟩
  rcases (Option.any_eq_true _ _).mp told with ⟨⟨answer, handing⟩, loads, told⟩
  rcases (Bool.and_eq_true_iff).mp told with ⟨isHandle, told⟩
  rcases (Option.any_eq_true _ _).mp told with ⟨named, found, told⟩
  rcases (Bool.and_eq_true_iff).mp told with ⟨isTag, told⟩
  rcases (Option.any_eq_true _ _).mp told with ⟨⟨done, final⟩, deletes, gone⟩
  have start : Session (ExactLine.host []) [] (World.new 128 (fun _ => 0)) := .start 128 _
  rcases start.follow followed with ⟨before, session⟩
  rcases (session.step (.restart 64 (fun _ => 0))).follow followed' with ⟨more, session⟩
  have isAnswer : answer = .collection 2 := handle_eq (of_decide_eq_true isHandle)
  rw [isAnswer] at loads
  have handed := session.step (goes_of_returned loads)
  have continued := Continues.done.step (goes_of_returned deletes)
  rcases handle_lasts handed continued with ⟨name, only, _, _, lasts⟩
  have isName : encode "a" = name := (only _).mp ⟨named, found, of_decide_eq_true isTag⟩
  rw [← isName] at lasts
  have stay : ∀ event ∈ [Event.call (.deleteCollection (.str "b")) (.ok done)],
      ¬ Ends (encode "a") event := by
    intro event member ends
    rw [List.mem_singleton.mp member] at ends
    exact absurd (encode_injective ends) (by decide)
  exact ⟨_, final, continued.session handed, by simp, (lasts stay).1, by simpa using gone⟩

end Lasting

end VectorVault.Python
