import VectorVault.PySessions

/-! Where the records come from that a program reads.

Each was given to a call that came through before, through whatever collections and
files it went since. Floats are rounded once, when they are given; what is read can be
given again and is read as it was. -/

namespace VectorVault.Python

open Collection PersistenceManager FloatWidths
open Concurrent (Entry)
open Durable (Store Transacts update?)

section Traces

variable {D : Type} [LinearOrder D] [OrderTop D] {host : Host D} {world : World}
  {visible before : Visible} {events first second : List (Event D)} {event : Event D}

theorem traced_last {call : PyCall} {result : Except PyException (Answer D)}
    (traced : Traced host (events ++ [.call call result]) visible) :
    ∃ before came, Traced host events before ∧ Does host before call came visible ∧
      result = came.mapError translate := by
  generalize same : events ++ [.call call result] = all at traced
  cases traced with
  | start => exact absurd same (by simp)
  | call earlier does =>
      rcases List.append_inj' same rfl with ⟨isEarlier, isLast⟩
      cases isLast
      rw [← isEarlier] at earlier
      exact ⟨_, _, earlier, does, rfl⟩
  | restart earlier =>
      rcases List.append_inj' same rfl with ⟨_, isLast⟩
      cases isLast

theorem traced_returned {call : PyCall} {answer : Answer D}
    (traced : Traced host (events ++ [.call call (.ok answer)]) visible) :
    ∃ before, Traced host events before ∧ Does host before call (.ok answer) visible := by
  rcases traced_last traced with ⟨before, came, earlier, does, same⟩
  cases came with
  | error raised => cases same
  | ok other =>
      cases same
      exact ⟨before, earlier, does⟩

theorem session_append (session : Session host (first ++ second) world) :
    ∃ before, Session host first before := by
  induction second using List.reverseRecOn generalizing world with
  | nil =>
      rw [List.append_nil] at session
      exact ⟨world, session⟩
  | append_singleton rest last ih =>
      rw [← List.append_assoc] at session
      generalize same : first ++ rest ++ [last] = all at session
      cases session with
      | start => exact absurd same (by simp)
      | step earlier =>
          rw [(List.append_inj' same rfl).1.symm] at earlier
          exact ih earlier

end Traces

section Given

variable {D : Type} [LinearOrder D] [OrderTop D] {host : Host D} {visible : Visible}
  {events : List (Event D)}

def Given (events : List (Event D)) (id : RecordId) (record : RecordView) : Prop :=
  (∀ component ∈ record.vector, component.isFinite = true) ∧
    ∃ call name command, .call call (.ok (.object .none)) ∈ events ∧
      commandOf name call = .ok (some command) ∧ Brings command id record

omit [LinearOrder D] [OrderTop D] in
theorem Given.append {more : List (Event D)} {id : RecordId} {record : RecordView}
    (given : Given events id record) : Given (events ++ more) id record := by
  rcases given with ⟨finite, call, name, command, came, asks, brings⟩
  exact ⟨finite, call, name, command, List.mem_append_left _ came, asks, brings⟩

theorem Does.each {call : PyCall} {result : Except Raised (Answer D)} {after : Visible}
    (does : Does host visible call result after) (each : Each (Given events) visible.store) :
    Each (Given (events ++ [.call call (result.mapError translate)])) after.store := by
  have kept : Each (Given (events ++ [.call call (result.mapError translate)])) visible.store :=
    each.imp (fun _ _ given => given.append)
  cases does with
  | @done _ name command after leads asks quiet does =>
      apply kept.transacts does
      intro _ id record brings finite
      exact ⟨finite, call, name, command, List.mem_append_right _ List.mem_cons_self, asks, brings⟩
  | @handed _ name new command after self asks opens does =>
      apply kept.transacts does
      intro _ id record brings finite
      cases call with
      | createCollection new dim metric =>
          rcases bind_ok asks with ⟨parsed, _, same⟩
          cases same
          cases brings
      | load path =>
          cases asks
          cases brings
      | _ => exact absurd opens not_false
  | refused | threw | unknown | found | listed | missing | got | counted | typed | answered =>
      exact kept

theorem Traced.each (traced : Traced host events visible) : Each (Given events) visible.store := by
  induction traced with
  | start => exact ⟨fun _ _ found => (by cases found), fun _ _ found => (by cases found)⟩
  | call earlier does ih => exact does.each ih
  | restart earlier ih =>
      have kept := ih.imp (fun id record given => @Given.append D _ [.restart] id record given)
      exact ⟨fun _ _ found => (by cases found), kept.files⟩

end Given

section Conversions

def off (double : F64) (target : Int) : Nat := (units double - target).natAbs

def whole? : PyObject → Option Int
  | .bool value => some (if value then 1 else 0)
  | .int value => some value
  | _ => none

/-- The finite float read for a number given: no other is nearer to the number, or to the
double nearest to an integer. -/
inductive Nearest : PyObject → PyObject → Prop
  | float {value : F64} {component : F32} (finite : Finite64 value) (fits : Finite32 component)
      (nearest : ∀ other, Finite32 other →
        off (widen component) (units value) ≤ off (widen other) (units value)) :
      Nearest (.float value) (.float (widen component))
  | whole {given : PyObject} {value : Int} {double : F64} {component : F32}
      (isWhole : whole? given = some value) (fits : Finite32 component)
      (rounded : ∀ other, off double (value * (2 ^ unit64 : Nat)) ≤
        off other (value * (2 ^ unit64 : Nat)))
      (nearest : ∀ other, Finite32 other →
        off (widen component) (units double) ≤ off (widen other) (units double)) :
      Nearest given (.float (widen component))

/-- The list read for a sequence of numbers. -/
def SameVector (given got : PyObject) : Prop :=
  ∃ items floats, sequenceItems given = some items ∧ got = .list floats ∧
    List.Forall₂ Nearest items floats

/-- The same dict, up to the order of its items, or none. -/
def SameMetadata (given got : PyObject) : Prop :=
  given = .none ∧ got = .none ∨ ∃ items items', given = .dict items ∧ got = .dict items' ∧
    ((items.map Prod.fst).Nodup → items'.Perm items)

/-- What a call gives under an identifier. -/
inductive Gives : PyCall → RecordId → PyObject → PyObject → Prop
  | insert {self : Nat} {id : PyText} {vector metadata : PyObject} :
      Gives (.insert self id vector metadata) id.cast vector metadata
  | pair {self : Nat} {records item vector : PyObject} {items : List PyObject} {id : String}
      (isItems : iterated records = some items) (member : item ∈ items)
      (fields : fieldsOf item = some [.str id, vector]) :
      Gives (.insertBatch self records) (encode id) vector .none
  | triple {self : Nat} {records item vector metadata : PyObject} {items : List PyObject}
      {id : String} (isItems : iterated records = some items) (member : item ∈ items)
      (fields : fieldsOf item = some [.str id, vector, metadata]) :
      Gives (.insertBatch self records) (encode id) vector metadata

theorem finite_of_narrow {value : F64} (fits : Finite32 (narrow value)) : Finite64 value := by
  by_contra large
  have size := value.toNat_lt
  have top : infinity32 = 255 * 2 ^ 23 := rfl
  have word : ∀ code, infinity32 ≤ code → code < 2 ^ 31 →
      narrow value = UInt32.ofNat (value.toNat / 2 ^ 63 * 2 ^ 31 + code) → False := by
    intro code above below same
    unfold Finite32 code32 at fits
    rw [same, UInt32.toNat_ofNat'] at fits
    omega
  unfold Finite64 at large
  by_cases isNan : infinity64 < code64 value
  · apply word (infinity32 + 2 ^ 22 + code64 value / 2 ^ 29 % 2 ^ 22) (by omega) (by omega)
    simp only [narrow, if_pos isNan]
  · have infinite : code64 value = infinity64 := by omega
    apply word infinity32 (Nat.le_refl _) (by omega)
    simp only [narrow, if_neg isNan, if_pos infinite]

theorem nearest_of_denotes {item : PyObject} {value : F64} (denotes : Denotes item value)
    (fits : Finite32 (narrow value)) : Nearest item (.float (widen (narrow value))) := by
  have finite := finite_of_narrow fits
  have nearest : ∀ other, Finite32 other →
      off (widen (narrow value)) (units value) ≤ off (widen other) (units value) :=
    fun other known => narrow_nearest finite fits known
  rcases denotes with ⟨numeric, known⟩
  cases item with
  | float given =>
      cases known
      exact .float finite fits nearest
  | int given =>
      have known : ofInt given = some value := known
      have rounded : ∀ other, off value (given * (2 ^ unit64 : Nat)) ≤
          off other (given * (2 ^ unit64 : Nat)) := fun other => ofInt_nearest known other
      exact .whole rfl fits rounded nearest
  | bool given =>
      have known : ofInt (if given then 1 else 0) = some value := known
      have rounded : ∀ other, off value ((if given then 1 else 0) * (2 ^ unit64 : Nat)) ≤
          off other ((if given then 1 else 0) * (2 ^ unit64 : Nat)) :=
        fun other => ofInt_nearest known other
      exact .whole rfl fits rounded nearest
  | _ => cases numeric

theorem toFloatVector_same {given : PyObject} {vector : List F32}
    (converted : toFloatVector given = .ok vector)
    (finite : ∀ component ∈ vector, component.isFinite = true) :
    SameVector given (fromFloatVector vector) := by
  unfold toFloatVector at converted
  split at converted
  · next items isItems =>
      refine ⟨items, _, isItems, rfl, ?_⟩
      rw [List.forall₂_map_right_iff]
      have both := ((List.forall₂_and_left _ _).mpr ⟨finite, (toComponents_ok converted).flip⟩).flip
      apply both.imp
      rintro item component ⟨known, value, denotes, same⟩
      rw [same] at known ⊢
      exact nearest_of_denotes denotes (finite_of_isFinite known)
  · cases converted

theorem toOptionalMetadata_same {refused : Raised} {given got : PyObject}
    {metadata : Option Metadata} (converted : toOptionalMetadata refused given = .ok metadata)
    (returned : fromOptionalMetadata metadata = .ok got) : SameMetadata given got := by
  unfold toOptionalMetadata at converted
  split at converted
  · cases converted
    cases returned
    exact Or.inl ⟨rfl, rfl⟩
  · next items =>
      rcases bind_ok converted with ⟨made, stored, same⟩
      cases same
      rcases bind_ok returned with ⟨items', read, isGot⟩
      cases isGot
      refine Or.inr ⟨items, items', rfl, rfl, fun distinct => ?_⟩
      rcases fromMetadata_perm distinct stored with ⟨other, isOther, permuted⟩
      rcases bind_ok isOther with ⟨again, readAgain, same⟩
      rw [read] at readAgain
      cases readAgain
      cases same
      exact permuted
  · cases converted

theorem toRecord_fields {index : Nat} {item : PyObject} {record : RecordInput}
    (converted : toRecord index item = .ok record) :
    ∃ id vector metadata, record.id = encode id ∧ toFloatVector vector = .ok record.vector ∧
      (∃ refused, toOptionalMetadata refused metadata = .ok record.metadata) ∧
      (fieldsOf item = some [.str id, vector] ∧ metadata = .none ∨
        fieldsOf item = some [.str id, vector, metadata]) := by
  have fields : ∀ first vector metadata,
      toRecord.toFields index first vector metadata = .ok record →
        ∃ id, first = .str id ∧ record.id = encode id ∧
          toFloatVector vector = .ok record.vector ∧
          ∃ refused, toOptionalMetadata refused metadata = .ok record.metadata := by
    intro first vector metadata made
    unfold toRecord.toFields at made
    split at made
    · next id =>
        rcases bind_ok made with ⟨v, isVector, made⟩
        rcases bind_ok made with ⟨m, stored, same⟩
        cases same
        exact ⟨id, rfl, rfl, isVector, _, stored⟩
    · cases made
  unfold toRecord at converted
  split at converted
  · cases converted
  · next first vector isFields =>
      rcases fields _ _ _ converted with ⟨id, isText, isId, isVector, stored⟩
      rw [isText] at isFields
      exact ⟨id, vector, .none, isId, isVector, stored, Or.inl ⟨isFields, rfl⟩⟩
  · next first vector metadata isFields =>
      rcases fields _ _ _ converted with ⟨id, isText, isId, isVector, stored⟩
      rw [isText] at isFields
      exact ⟨id, vector, metadata, isId, isVector, stored, Or.inr isFields⟩
  · cases converted

theorem gives_of_brings {call : PyCall} {name : Bytes} {command : Command} {id : RecordId}
    {record : RecordView} (asks : commandOf name call = .ok (some command))
    (brings : Brings command id record) :
    ∃ vector metadata, Gives call id vector metadata ∧ toFloatVector vector = .ok record.vector ∧
      ∃ refused, toOptionalMetadata refused metadata = .ok record.metadata := by
  cases call with
  | insert self id vector metadata =>
      rcases bind_ok asks with ⟨⟨v, m⟩, converted, same⟩
      rcases bind_ok converted with ⟨_, isVector, converted⟩
      rcases bind_ok converted with ⟨_, stored, made⟩
      cases made
      cases same
      cases brings with
      | insert => exact ⟨vector, metadata, .insert, isVector, _, stored⟩
  | insertBatch self records =>
      rcases bind_ok asks with ⟨inputs, converted, same⟩
      cases same
      cases brings with
      | @insertBatch _ _ input member =>
          rcases toRecords_member converted member with
            ⟨items, position, isItems, item, among, made⟩
          rcases toRecord_fields made with
            ⟨id, vector, metadata, isId, isVector, stored, pair | triple⟩
          · rw [isId]
            rcases pair with ⟨fields, none⟩
            rw [none] at stored
            exact ⟨vector, .none, .pair isItems among fields, isVector, stored⟩
          · rw [isId]
            exact ⟨vector, metadata, .triple isItems among triple, isVector, stored⟩
  | createCollection new dim metric =>
      rcases bind_ok asks with ⟨_, _, same⟩
      cases same
      cases brings
  | buildIndex self type kwargs =>
      rcases bind_ok asks with ⟨⟨_, _⟩, _, same⟩
      cases same
      cases brings
  | query self vector k kwargs =>
      rcases bind_ok asks with ⟨⟨_, _, _⟩, _, same⟩
      cases same
      cases brings
  | deleteCollection | save | load | delete =>
      cases asks
      cases brings
  | getCollection | listCollections | get | count | indexType => cases asks

end Conversions

section Reads

variable {D : Type} [LinearOrder D] [OrderTop D] {host : Host D} {world : World}
  {visible before : Visible} {events between : List (Event D)}

theorem does_get {self : Nat} {id : PyText} {answer : Answer D}
    (does : Does host before (.get self id) (.ok answer) visible) :
    ∃ name entry record metadata, before.handles self = some name ∧
      before.store.collections.find? name = some entry ∧
      entry.view.find? id.cast = some record ∧
      fromOptionalMetadata record.metadata = .ok metadata ∧
      answer = .object (.tuple [fromFloatVector record.vector, metadata]) ∧ visible = before := by
  cases does with
  | done leads asks quiet => exact absurd quiet not_false
  | handed asks opens => exact absurd opens not_false
  | got leads known held converted =>
      exact ⟨_, _, _, _, leads, known, held, converted, rfl, rfl⟩

/-- Whatever a program reads was given to a call before, through all collections and
files; the floats are the nearest ones and the metadata is the same. -/
theorem read_as_given {self : Nat} {id : PyText} {answer : Answer D}
    (session : Session host (events ++ [.call (.get self id) (.ok answer)]) world) :
    ∃ vector metadata call given also, answer = .object (.tuple [vector, metadata]) ∧
      .call call (.ok (.object .none)) ∈ events ∧ Gives call id.cast given also ∧
      SameVector given vector ∧ SameMetadata also metadata := by
  rcases session.depicts with ⟨visible, traced, _⟩
  rcases traced_returned traced with ⟨before, earlier, does⟩
  rcases does_get does with ⟨name, entry, record, metadata, _, known, held, converted, isAnswer, _⟩
  rcases earlier.each.collections name entry known _ record held with
    ⟨finite, call, target, command, came, asks, brings⟩
  rcases gives_of_brings asks brings with ⟨given, also, gives, isVector, _, stored⟩
  exact ⟨_, metadata, call, given, also, isAnswer, came, gives,
    toFloatVector_same isVector finite, toOptionalMetadata_same stored converted⟩

theorem does_insert {self : Nat} {id : PyText} {vector metadata : PyObject} {answer : Answer D}
    (does : Does host before (.insert self id vector metadata) (.ok answer) visible) :
    ∃ v m name entry, insertArguments vector metadata = .ok (v, m) ∧
      visible.handles self = some name ∧ visible.store.collections.find? name = some entry ∧
      entry.view.find? id.cast = some ⟨v, m⟩ := by
  cases does with
  | handed asks opens => exact absurd opens not_false
  | @done _ name command after leads asks quiet does =>
      rcases bind_ok asks with ⟨⟨v, m⟩, converted, same⟩
      cases same
      cases does with
      | @updated _ _ update entry made _ updates known done =>
          cases updates
          cases done with
          | made valid =>
              refine ⟨v, m, name, _, converted, ?_, OrderedMap.find_insert_self _ _ _, ?_⟩
              · apply kept_iff.mpr
                refine ⟨leads self rfl, ?_⟩
                rw [OrderedMap.contains, OrderedMap.find_insert_self]
                rfl
              · exact OrderedMap.find_insert_self _ _ _

def float? : Answer D → Option F64
  | .object (.tuple [.list [.float value], _]) => some value
  | _ => none

omit [LinearOrder D] [OrderTop D] in
theorem float_eq {value : F64} {vector metadata : PyObject}
    (isFloat : float? (.object (.tuple [vector, metadata]) : Answer D) = some value) :
    vector = .list [.float value] := by
  unfold float? at isFloat
  split at isFloat
  · next same =>
      cases same
      cases isFloat
      rfl
  · cases isFloat

/-- A double that no float32 is, given with a dict and saved, is read of the collection
that the next engine has loaded. -/
theorem read_as_given_of_dict :
    ∃ (events : List (Event (WithTop Nat))) (world : World) (call : PyCall)
      (given also metadata : PyObject),
      Session (ExactLine.host []) (events ++ [.call (.get 1 (.str "x"))
        (.ok (.object (.tuple [.list [.float 0x3FB99999A0000000], metadata])))]) world ∧
      .restart ∈ events ∧ .call call (.ok (.object .none)) ∈ events ∧
      Gives call (encode "x") given also ∧
      SameVector given (.list [.float 0x3FB99999A0000000]) ∧ SameMetadata also metadata := by
  have told : (follow (ExactLine.host []) (World.new 128 (fun _ => 0))
      [.createCollection (.str "a") 1 (.str "L2"),
        .insert 1 (.str "x") (.list [.float 0x3FB999999999999A]) (.dict [(.str "k", .bool true)]),
        .save (.str "a") (.str "p") [6] .published]).any (fun saved =>
      (follow (ExactLine.host []) (saved.restart 64 (fun _ => 0)) [.load (.str "p")]).any
        (fun loaded => (returned? (ExactLine.host []) loaded (.get 1 (.str "x"))).any
          (fun read => decide (float? read.1 = some 0x3FB99999A0000000)))) = true := by
    decide +kernel
  rcases (Option.any_eq_true _ _).mp told with ⟨saved, followed, told⟩
  rcases (Option.any_eq_true _ _).mp told with ⟨loaded, followed', told⟩
  rcases (Option.any_eq_true _ _).mp told with ⟨⟨answer, world⟩, returned, told⟩
  have isFloat : float? answer = some 0x3FB99999A0000000 := of_decide_eq_true told
  have start : Session (ExactLine.host []) [] (World.new 128 (fun _ => 0)) := .start 128 _
  rcases start.follow followed with ⟨before, session⟩
  rcases (session.step (.restart 64 (fun _ => 0))).follow followed' with ⟨more, session⟩
  have session := session.step (goes_of_returned returned)
  rcases read_as_given session with
    ⟨vector, metadata, call, given, also, same, came, gives, isVector, isMetadata⟩
  rw [same] at isFloat session
  rw [float_eq isFloat] at isVector session
  exact ⟨_, world, call, given, also, metadata, session, by simp, came, gives, isVector, isMetadata⟩

theorem get_after_insert {self : Nat} {id : PyText} {vector metadata : PyObject} {answer : Answer D}
    {result : Except PyException (Answer D)}
    (traced : Traced host (events ++ [.call (.insert self id vector metadata) (.ok answer)] ++
      [.call (.get self id) result]) visible) :
    ∃ v m, insertArguments vector metadata = .ok (v, m) ∧ ∃ got, fromOptionalMetadata m = .ok got ∧
      result = .ok (.object (.tuple [fromFloatVector v, got])) := by
  rcases traced_last traced with ⟨after, came, traced, reads, isResult⟩
  rcases traced_returned traced with ⟨before, _, does⟩
  rcases does_insert does with ⟨v, m, name, entry, converted, leads, known, held⟩
  refine ⟨v, m, converted, ?_⟩
  rw [isResult]
  cases reads with
  | refused conversion => cases conversion
  | threw _ asks => cases asks
  | done _ asks => cases asks
  | handed asks => cases asks
  | missing leads' known' unknown =>
      rw [leads] at leads'
      cases leads'
      rw [known] at known'
      cases known'
      rw [held] at unknown
      cases unknown
  | got leads' known' held' returned =>
      rw [leads] at leads'
      cases leads'
      rw [known] at known'
      cases known'
      rw [held] at held'
      cases held'
      exact ⟨_, returned, rfl⟩

theorem insertArguments_read {id : RecordId} {record : RecordView} {metadata : PyObject}
    (textual : TextualRecord id record)
    (returned : fromOptionalMetadata record.metadata = .ok metadata) :
    insertArguments (fromFloatVector record.vector) metadata =
      .ok (record.vector, record.metadata) := by
  rcases record with ⟨vector, stored⟩
  have isVector : toFloatVector (fromFloatVector vector) = .ok vector :=
    toFloatVector_fromFloatVector vector
      (fun component member => finite_of_isFinite (textual.2.2 component member))
  cases stored with
  | none =>
      cases returned
      rw [insertArguments, isVector]
      rfl
  | some stored =>
      rcases fromMetadata_ok (textual.2.1 stored rfl) with ⟨items, isItems, back⟩
      rw [fromOptionalMetadata, isItems, Except.ok.injEq] at returned
      simp only [insertArguments, isVector, ← returned, toOptionalMetadata, back, bind, Except.bind]
      rfl

/-- What a program has read, and whenever it inserts it again, wherever, it then reads
exactly as it was. -/
theorem copy_as_read {self other : Nat} {id copy : PyText} {vector metadata : PyObject}
    {done : Answer D} {result : Except PyException (Answer D)}
    (session : Session host (events ++
      [.call (.get self id) (.ok (.object (.tuple [vector, metadata])))] ++ between ++
      [.call (.insert other copy vector metadata) (.ok done)] ++
      [.call (.get other copy) result]) world) :
    result = .ok (.object (.tuple [vector, metadata])) := by
  have earlier := session
  rw [List.append_assoc, List.append_assoc, List.append_assoc, ← List.append_assoc events]
    at earlier
  rcases session_append earlier with ⟨_, reading⟩
  rcases reading.depicts with ⟨visible, traced, depicts⟩
  rcases traced_returned traced with ⟨before, _, does⟩
  rcases does_get does with ⟨name, entry, record, metadata', _, known, held, returned, same, stays⟩
  cases same
  rw [stays] at depicts
  have converted := insertArguments_read
    (depicts.textual.collections name entry known _ record held) returned
  rcases session.depicts with ⟨_, traced, _⟩
  rcases get_after_insert traced with ⟨v, m, isArguments, got, isGot, isResult⟩
  rw [converted] at isArguments
  cases isArguments
  rw [returned] at isGot
  cases isGot
  exact isResult

def pair? : Answer D → Option (PyObject × PyObject)
  | .object (.tuple [vector, metadata]) => some (vector, metadata)
  | _ => none

omit [LinearOrder D] [OrderTop D] in
theorem pair_eq {answer : Answer D} {vector metadata : PyObject}
    (isPair : pair? answer = some (vector, metadata)) :
    answer = .object (.tuple [vector, metadata]) := by
  unfold pair? at isPair
  split at isPair
  · cases isPair
    rfl
  · cases isPair

/-- A record is copied to another collection after its own has been deleted. -/
theorem copy_as_read_of_deleted :
    ∃ (events between : List (Event (WithTop Nat))) (world : World) (vector metadata : PyObject)
      (done : Answer (WithTop Nat)),
      Session (ExactLine.host []) (events ++
        [.call (.get 1 (.str "x")) (.ok (.object (.tuple [vector, metadata])))] ++ between ++
        [.call (.insert 2 (.str "y") vector metadata) (.ok done)] ++
        [.call (.get 2 (.str "y")) (.ok (.object (.tuple [vector, metadata])))]) world ∧
      world.engine.collections.contains (encode "a") = false := by
  have told : (follow (ExactLine.host []) (World.new 128 (fun _ => 0))
      [.createCollection (.str "a") 1 (.str "L2"),
        .insert 1 (.str "x") (.list [.int 0]) (.dict [(.str "k", .bool true)])]).any
      (fun world => (returned? (ExactLine.host []) world (.get 1 (.str "x"))).any (fun first =>
        (pair? first.1).any (fun read =>
          (follow (ExactLine.host []) first.2 [.deleteCollection (.str "a"),
            .createCollection (.str "b") 1 (.str "cosine")]).any (fun other =>
              (returned? (ExactLine.host []) other (.insert 2 (.str "y") read.1 read.2)).any
                (fun copied => (returned? (ExactLine.host []) copied.2 (.get 2 (.str "y"))).any
                  (fun final => !final.2.engine.collections.contains (encode "a"))))))) = true := by
    decide +kernel
  rcases (Option.any_eq_true _ _).mp told with ⟨world, followed, told⟩
  rcases (Option.any_eq_true _ _).mp told with ⟨⟨answer, after⟩, returned, told⟩
  rcases (Option.any_eq_true _ _).mp told with ⟨⟨vector, metadata⟩, isPair, told⟩
  rcases (Option.any_eq_true _ _).mp told with ⟨other, moved, told⟩
  rcases (Option.any_eq_true _ _).mp told with ⟨⟨done, copied⟩, inserted, told⟩
  rcases (Option.any_eq_true _ _).mp told with ⟨⟨result, final⟩, read, gone⟩
  have start : Session (ExactLine.host []) [] (World.new 128 (fun _ => 0)) := .start 128 _
  rcases start.follow followed with ⟨events, session⟩
  have reading := session.step (goes_of_returned returned)
  have isAnswer : answer = _ := pair_eq isPair
  rw [isAnswer] at reading
  rcases reading.follow moved with ⟨between, moving⟩
  have session := (moving.step (goes_of_returned inserted)).step (goes_of_returned read)
  have same := copy_as_read session
  rw [same] at session
  exact ⟨_, between, final, vector, metadata, done, session, by simpa using gone⟩

end Reads

end VectorVault.Python
