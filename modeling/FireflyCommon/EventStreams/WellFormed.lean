import FireflyCommon.EventStreams.Manager

set_option autoImplicit false

/-!
# Registry entries name their own streams

`addStream` registers a stream under its spec's ID, and no call changes the ID of a stream, so
every registry entry names an existing stream under that stream's ID. This holds of the boot
world and every call keeps it, so it holds after every run.
-/

namespace FireflyCommon.EventStreams

open Prog

variable {CT : Type}

/-- Each registry entry names an existing stream, under that stream's own ID. -/
structure World.WellFormed (w : World CT) : Prop where
  keyed : ∀ id es, w.streams.lookup id = some es →
    ∃ stream, w.heap[es]? = some stream ∧ stream.spec.getID = id

namespace World.WellFormed

variable {w : World CT}

theorem boot (eventStreams : SpecTable CT) (checkpoints : List EventStreamCheckpoint) :
    (World.boot eventStreams checkpoints).WellFormed :=
  ⟨fun id es registered => by simp [World.boot] at registered⟩

theorem single (stream : EventStream CT) (checkpoints : List EventStreamCheckpoint) :
    (World.single stream checkpoints).WellFormed := by
  refine ⟨fun id es registered => ?_⟩
  by_cases same : id = stream.spec.getID
  · subst same
    simp only [World.single, AList.lookup_insert, Option.some.injEq] at registered
    exact ⟨stream, by simp [World.single, ← registered], rfl⟩
  · simp [World.single, AList.lookup_insert_ne same, -AList.insert_empty] at registered

/-- A call that leaves the registry alone and keeps every stream's ID keeps the invariant. -/
theorem of_heap {w' : World CT} (wellFormed : w.WellFormed) (streams : w'.streams = w.streams)
    (heap : ∀ (es : Nat) (stream : EventStream CT), w.heap[es]? = some stream →
      ∃ stream' : EventStream CT, w'.heap[es]? = some stream' ∧
        stream'.spec.getID = stream.spec.getID) :
    w'.WellFormed := by
  refine ⟨fun id es registered => ?_⟩
  obtain ⟨stream, live, keyed⟩ := wellFormed.keyed id es (streams ▸ registered)
  obtain ⟨stream', live', sameID⟩ := heap es stream live
  exact ⟨stream', live', sameID.trans keyed⟩

theorem modifyStream (wellFormed : w.WellFormed) (es : Nat) {f : EventStream CT → EventStream CT}
    (keepsID : ∀ stream, (f stream).spec.getID = stream.spec.getID) :
    (w.modifyStream es f).WellFormed :=
  wellFormed.of_heap rfl fun other stream live => by
    by_cases same : es = other <;> simp [same, live, keepsID]

theorem setActive (wellFormed : w.WellFormed) (es : Nat) (active : Bool) :
    (w.setActive es active).WellFormed :=
  wellFormed.modifyStream es fun _ => rfl

theorem newEventStream (wellFormed : w.WellFormed) (spec : EventStreamSpec CT) :
    (w.newEventStream spec).1.WellFormed :=
  wellFormed.of_heap rfl fun es stream live => by
    have inside : es < w.heap.length := (List.getElem?_eq_some_iff.mp live).1
    exact ⟨stream, by simpa [World.newEventStream, List.getElem?_append_left inside] using live, rfl⟩

theorem addStream (wellFormed : w.WellFormed) (es : Nat) : (w.addStream es).WellFormed := by
  cases live : w.heap[es]? with
  | none => simpa [World.addStream, live] using wellFormed
  | some stream =>
      refine ⟨fun id other registered => ?_⟩
      rw [World.streams_addStream live] at registered
      by_cases same : id = stream.spec.getID
      · subst same
        simp only [AList.lookup_insert, Option.some.injEq] at registered
        exact ⟨stream, by simp [← registered, live], rfl⟩
      · rw [AList.lookup_insert_ne same] at registered
        simpa using wellFormed.keyed id other registered

theorem removeStream (wellFormed : w.WellFormed) (removed : String) :
    (w.removeStream removed).WellFormed := by
  refine ⟨fun id es registered => ?_⟩
  by_cases same : id = removed
  · subst same
    simp [World.removeStream] at registered
  · exact wellFormed.keyed id es
      (by simpa [World.removeStream, AList.lookup_erase_ne same] using registered)

theorem recordStatus (wellFormed : w.WellFormed) (es : Nat) (status : EventStreamStatus) :
    (w.recordStatus es status).WellFormed :=
  wellFormed.of_heap rfl fun other stream live => by
    by_cases same : es = other <;>
      simp [World.getElem?_modify_heap, EventStreamSpec.getID, same, live]

theorem exec_access (call : Access) (wellFormed : w.WellFormed) : (call.exec w).1.WellFormed := by
  cases call with
  | addStream es => exact wellFormed.addStream es
  | removeStream id => exact wellFormed.removeStream id
  | setInitialSequenceID es sequenceID => exact wellFormed.modifyStream es fun _ => rfl
  | ensureActive es => exact wellFormed.setActive es true
  | getStream | listStreams | newID | readStatus | readStream => exact wellFormed

theorem exec_request (call : Request CT) (wellFormed : w.WellFormed) :
    (call.exec w).1.WellFormed := by
  cases call with
  | initEventStream spec => exact wellFormed.newEventStream spec
  | suspend es => exact wellFormed.setActive es false
  | start es => exact wellFormed.setActive es true
  | stop es => exact wellFormed.recordStatus es .stopped
  | delete es => exact wellFormed.recordStatus es .deleted
  | validateStream | eventStreamsGetMany | eventStreamsGetByID | eventStreamsUpsert
    | eventStreamsDelete | eventStreamsUpdateSparse | checkpointsDeleteMany => exact ⟨wellFormed.keyed⟩

theorem wp {α : Type} (p : Prog CT α) (wellFormed : w.WellFormed) :
    p.wp (fun w _ _ => w.WellFormed) w :=
  wp_of_invariant (fun call _ => exec_access call) (fun call _ => exec_request call) p wellFormed

theorem run {α : Type} (p : Prog CT α) (plan : List Bool) (wellFormed : w.WellFormed) :
    (p.run plan w).1.WellFormed :=
  run_of_wp (wp p wellFormed) plan

theorem step {α : Type} {p next : Prog CT α} {ok : Bool} {w' : World CT}
    (stepped : p.step ok w = some (w', next)) (wellFormed : w.WellFormed) : w'.WellFormed :=
  step_of_invariant (fun call _ => exec_access call) (fun call _ => exec_request call) stepped
    wellFormed

/-- Two registry entries for one stream are one entry. -/
theorem key_unique (wellFormed : w.WellFormed) {id key : String} {es : Nat}
    (found : w.streams.lookup id = some es) (registered : w.streams.lookup key = some es) :
    id = key := by
  obtain ⟨stream, live, keyed⟩ := wellFormed.keyed key es registered
  obtain ⟨stream', live', keyed'⟩ := wellFormed.keyed id es found
  rw [live, Option.some.injEq] at live'
  exact keyed'.symm.trans (live' ▸ keyed)

/-- A write to one stream changes what is registered under its ID, and nothing else. -/
theorem registered_modifyStream (wellFormed : w.WellFormed) {key : String} {es : Nat}
    (registered : w.streams.lookup key = some es) (f : EventStream CT → EventStream CT)
    (id : String) :
    (w.modifyStream es f).registered id =
      if id = key then (w.registered id).map f else w.registered id := by
  split
  case isTrue same =>
    subst same
    simp [World.registered, registered]
  case isFalse different =>
    simp only [World.registered, World.modifyStream_streams]
    cases found : w.streams.lookup id with
    | none => rfl
    | some other =>
        have elsewhere : es ≠ other := fun same =>
          different (wellFormed.key_unique (same ▸ found) registered)
        simp [elsewhere]

theorem registered_setActive (wellFormed : w.WellFormed) {key : String} {es : Nat}
    (registered : w.streams.lookup key = some es) (active : Bool) (id : String) :
    (w.setActive es active).registered id =
      if id = key then (w.registered id).map ({ · with active }) else w.registered id :=
  wellFormed.registered_modifyStream registered _ id

/-- Registering a new stream for `spec` changes what is registered under its ID only. -/
theorem registered_register (wellFormed : w.WellFormed) (spec : EventStreamSpec CT)
    (id : String) :
    ((w.newEventStream spec).1.addStream w.heap.length).registered id =
      if id = spec.getID then some ⟨spec, decide (spec.status = some .started)⟩
      else w.registered id := by
  have live := w.getElem?_newEventStream_length spec
  simp only [World.registered, World.streams_addStream live, World.heap_addStream,
    World.streams_newEventStream]
  split
  case isTrue same => subst same; simp [live]
  case isFalse different =>
    rw [AList.lookup_insert_ne different]
    cases found : w.streams.lookup id with
    | none => rfl
    | some es =>
        obtain ⟨stream, exists_, -⟩ := wellFormed.keyed id es found
        have inside : es ≠ w.heap.length := (List.getElem?_eq_some_iff.mp exists_).1.ne
        simp [World.getElem?_newEventStream, inside]

end World.WellFormed

end FireflyCommon.EventStreams
