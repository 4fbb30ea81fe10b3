import FireflyCommon.EventStreams.WellFormed
import FireflyCommon.EventStreams.Operations
import FireflyCommon.EventStreams.Reset

set_option autoImplicit false

/-!
# The registry and the persisted table

`Agree` says the registry and the `event_streams` table hold the same IDs, and each registered
stream's spec is the persisted spec with its ID. Every call that returns nil keeps it, when calls
are served one after another. A call that fails keeps it too, except in two places where the
code has written one side and not the other: `UpsertStream` when `reInit` fails after the new
spec is persisted, and `ResetStream` when `UpdateSparse` fails after the new initial sequence ID
is written to the stream.
-/

namespace FireflyCommon.EventStreams

open Prog

variable {CT : Type}

namespace World

/-- The spec of the stream registered under `id`. -/
def liveSpec (w : World CT) (id : String) : Option (EventStreamSpec CT) :=
  (w.registered id).map (·.spec)

/-- The registry and the persisted table hold the same IDs, with the same specs. -/
def Agree (w : World CT) : Prop :=
  ∀ id, w.liveSpec id = w.eventStreams.find? id

variable {w : World CT}

@[simp] theorem liveSpec_deleteSpec (removed id : String) :
    (w.deleteSpec removed).liveSpec id = w.liveSpec id := rfl

@[simp] theorem liveSpec_updateSparse (sparse : EventStreamSpec CT) (id : String) :
    (w.updateSparse sparse).liveSpec id = w.liveSpec id := rfl

@[simp] theorem liveSpec_deleteCheckpoints (removed id : String) :
    (w.deleteCheckpoints removed).liveSpec id = w.liveSpec id := rfl

@[simp] theorem liveSpec_upsertSpec (spec : EventStreamSpec CT) (id : String) :
    (w.upsertSpec spec).1.liveSpec id = w.liveSpec id := rfl

/-- A write to one stream changes the spec registered under its ID, and no other. -/
theorem liveSpec_modifyStream (wellFormed : w.WellFormed) {key : String} {es : Nat}
    (registered : w.streams.lookup key = some es) {f : EventStream CT → EventStream CT}
    (g : EventStreamSpec CT → EventStreamSpec CT) (changes : ∀ stream, (f stream).spec = g stream.spec)
    (id : String) :
    (w.modifyStream es f).liveSpec id = if id = key then (w.liveSpec id).map g else w.liveSpec id := by
  simp only [liveSpec, wellFormed.registered_modifyStream registered]
  split <;> simp [Option.map_map, Function.comp_def, changes]

@[simp] theorem liveSpec_setActive (es : Nat) (active : Bool) (id : String) :
    (w.setActive es active).liveSpec id = w.liveSpec id := by
  simp only [liveSpec, World.registered, streams_setActive]
  cases w.streams.lookup id with
  | none => rfl
  | some other =>
      by_cases same : es = other
      · subst same; simp only [Option.some_bind, getElem?_setActive, if_true]
        cases w.heap[es]? <;> rfl
      · simp [same]

theorem liveSpec_removeStream (removed id : String) :
    (w.removeStream removed).liveSpec id = if id = removed then none else w.liveSpec id := by
  split
  case isTrue same => subst same; simp [liveSpec, World.registered, removeStream]
  case isFalse different =>
    simp [liveSpec, World.registered, removeStream, AList.lookup_erase_ne different]

/-- Registering a new stream for `spec` changes the spec registered under its ID only. -/
theorem liveSpec_register (wellFormed : w.WellFormed) (spec : EventStreamSpec CT) (id : String) :
    ((w.newEventStream spec).1.addStream w.heap.length).liveSpec id =
      if id = spec.getID then some spec else w.liveSpec id := by
  simp only [liveSpec, wellFormed.registered_register]
  split <;> rfl

theorem liveSpec_recordStatus (es : Nat) (status : EventStreamStatus) (id : String) :
    (w.recordStatus es status).liveSpec id =
      (w.modifyStream es fun stream => ⟨{ stream.spec with status := some status }, false⟩).liveSpec
        id := rfl

/-- The registry and the table agree on every ID but `key`. -/
def AgreeExcept (w : World CT) (key : String) : Prop :=
  ∀ id, id ≠ key → w.liveSpec id = w.eventStreams.find? id

namespace Agree

theorem boot (checkpoints : List EventStreamCheckpoint) :
    (World.boot SpecTable.empty checkpoints : World CT).Agree := fun _ => rfl

theorem single (stream : EventStream CT) (checkpoints : List EventStreamCheckpoint) :
    (World.single stream checkpoints).Agree := by
  intro id
  by_cases same : id = stream.spec.getID
  · subst same
    simp [liveSpec, World.registered, World.single, SpecTable.find?, -AList.insert_empty]
  · simp [liveSpec, World.registered, World.single, SpecTable.find?, AList.lookup_insert_ne same,
      -AList.insert_empty, Ne.symm same]

theorem setActive (agree : w.Agree) (es : Nat) (active : Bool) : (w.setActive es active).Agree :=
  fun id => by simpa using agree id

theorem deleteCheckpoints (agree : w.Agree) (id : String) : (w.deleteCheckpoints id).Agree :=
  agree

/-- `stop` and `delete` write the same status to the stream and to its row. -/
theorem recordStatus (agree : w.Agree) (wellFormed : w.WellFormed) {key : String} {es : Nat}
    (registered : w.streams.lookup key = some es) (status : EventStreamStatus) :
    (w.recordStatus es status).Agree := by
  obtain ⟨stream, live, keyed⟩ := wellFormed.keyed key es registered
  intro id
  rw [liveSpec_recordStatus,
    liveSpec_modifyStream wellFormed registered ({ · with status := some status }) fun _ => rfl]
  simp only [recordStatus_eventStreams, live, SpecTable.find?_updateSparse,
    EventStreamSpec.getID_statusUpdate, keyed, EventStreamSpec.merge_statusUpdate, agree id]
  split <;> simp_all [eq_comm]

/-- `ResetStream` writes the same initial sequence ID to the stream and to its row. -/
theorem setInitialSequenceID (agree : w.Agree) (wellFormed : w.WellFormed) {id : String}
    {es : Nat} (registered : w.streams.lookup id = some es) (sequenceID : String) :
    ((w.setInitialSequenceID es sequenceID).updateSparse
      (.initialSequenceUpdate id sequenceID)).Agree := by
  intro other
  rw [liveSpec_updateSparse, World.setInitialSequenceID, liveSpec_modifyStream wellFormed registered
    ({ · with initialSequenceID := some sequenceID }) fun _ => rfl]
  simp only [updateSparse_eventStreams, eventStreams_setInitialSequenceID,
    SpecTable.find?_updateSparse, EventStreamSpec.getID_initialSequenceUpdate,
    EventStreamSpec.merge_initialSequenceUpdate, agree other]
  split <;> simp_all [eq_comm]

/-- `DeleteStream` removes the row and the registry entry of the same ID. -/
theorem deleteSpec_removeStream (agree : w.Agree) (id : String) :
    ((w.deleteSpec id).removeStream id).Agree := by
  intro other
  rw [liveSpec_removeStream]
  simp only [removeStream, deleteSpec_eventStreams, SpecTable.find?_delete]
  split <;> simp_all [eq_comm, agree other]

end Agree

theorem agreeExcept_upsertSpec {w : World CT} (agree : w.Agree) (spec : EventStreamSpec CT) :
    (w.upsertSpec spec).1.AgreeExcept spec.getID := fun id different => by
  simp [Ne.symm different, agree id]

theorem AgreeExcept.setActive {key : String} (agree : w.AgreeExcept key) (es : Nat)
    (active : Bool) : (w.setActive es active).AgreeExcept key :=
  fun id different => by simpa using agree id different

/-- Registering the stream for the persisted spec restores agreement. -/
theorem AgreeExcept.register {spec : EventStreamSpec CT} (agree : w.AgreeExcept spec.getID)
    (persisted : w.eventStreams.find? spec.getID = some spec) (wellFormed : w.WellFormed) :
    ((w.newEventStream spec).1.addStream w.heap.length).Agree := by
  intro id
  rw [liveSpec_register wellFormed]
  split
  case isTrue same => subst same; simpa using persisted.symm
  case isFalse different => simpa using agree id different

end World

open World

/-- The failures after which an operation has written one of the registry and the table and not
the other: `UpsertStream` when `reInit` fails after the new spec is persisted (suspending the
stream it replaces, or building the new one), and `ResetStream` when `UpdateSparse` fails after
the new initial sequence ID is written to the stream. -/
def Operation.leavesPartialUpdate : Operation CT → Except Error Unit → Bool
  | .upsertStream _, .error (.failed .suspend) => true
  | .upsertStream _, .error (.failed .initEventStream) => true
  | .resetStream _ _, .error (.failed .eventStreamsUpdateSparse) => true
  | _, _ => false

theorem Operation.leavesPartialUpdate_ok (operation : Operation CT) :
    operation.leavesPartialUpdate (.ok ()) = false := by
  cases operation <;> rfl

theorem upsertStream_wp_agree (esSpec : EventStreamSpec CT) {w : World CT} (agree : w.Agree)
    (wellFormed : w.WellFormed) :
    (Operation.upsertStream esSpec).prog.wp (fun w' result _ =>
      (Operation.upsertStream esSpec).leavesPartialUpdate result = false → w'.Agree) w := by
  simp only [Operation.prog, bind_eq, wp_bind, upsertStream_wp, upsertSpec_wp]
  generalize w.upsertTarget esSpec = target
  obtain ⟨spec, existing⟩ := target
  split
  · simp [Operation.leavesPartialUpdate, agree]
  · refine ⟨by simp [Operation.leavesPartialUpdate, agree],
      by simp [Operation.leavesPartialUpdate, agree], ?_⟩
    rw [reInit_wp]
    have persisted : (w.upsertSpec spec).1.eventStreams.find? spec.getID = some spec := by simp
    have wellFormed' : (w.upsertSpec spec).1.WellFormed := ⟨wellFormed.keyed⟩
    have except := agreeExcept_upsertSpec agree spec
    cases existing with
    | none =>
        simp only [Operation.leavesPartialUpdate, ofExcept_error, wp_fail, ofExcept_ok, wp_ret]
        have registered := except.register persisted wellFormed'
        refine ⟨by simp, ?_⟩
        split
        · exact fun _ => registered.setActive _ _
        · exact fun _ => registered
    | some old =>
        simp only [Operation.leavesPartialUpdate, ofExcept_error, wp_fail, ofExcept_ok, wp_ret]
        have registered :=
          (except.setActive old false).register persisted (wellFormed'.setActive old false)
        refine ⟨by simp, by simp, ?_⟩
        split
        · exact fun _ => registered.setActive _ _
        · exact fun _ => registered

/-- Served alone, every operation keeps the registry and the table agreeing, unless it fails
midway through a partial update. -/
theorem Operation.wp_agree (operation : Operation CT) {w : World CT} (agree : w.Agree)
    (wellFormed : w.WellFormed) :
    operation.prog.wp (fun w' result _ => operation.leavesPartialUpdate result = false → w'.Agree)
      w := by
  cases operation with
  | upsertStream esSpec => exact upsertStream_wp_agree esSpec agree wellFormed
  | startStream id =>
      rw [Operation.prog, startStream_wp]
      split <;> simp [agree, agree.setActive]
  | stopStream id =>
      rw [Operation.prog, stopStream_wp]
      split
      case h_1 => simp [agree]
      case h_2 es registered => simp [agree, agree.recordStatus wellFormed registered]
  | deleteStream id =>
      rw [Operation.prog, deleteStream_wp]
      split
      case h_1 => simp [agree]
      case h_2 es registered =>
        have deleted := agree.recordStatus wellFormed registered .deleted
        simp [agree, deleted, deleted.deleteSpec_removeStream]
  | resetStream id sequenceID =>
      rw [Operation.prog, resetStream_wp]
      split
      case h_1 => simp [agree]
      case h_2 es registered =>
        have cleared := ((agree.setActive es false).deleteCheckpoints id).setInitialSequenceID
          ⟨((wellFormed.setActive es false)).keyed⟩ (by simpa using registered) sequenceID
        simp only [Operation.leavesPartialUpdate]
        refine ⟨by simp [agree], by simp [agree.setActive], by simp, ?_⟩
        split <;> simp [cleared, cleared.setActive]

theorem serve_cons (operation : Operation CT) (plan : List Bool)
    (rest : List (Operation CT × List Bool)) (w : World CT) :
    serve ((operation, plan) :: rest) w =
      ((serve rest (operation.prog.run plan w).1).1,
        (operation.prog.run plan w).2 :: (serve rest (operation.prog.run plan w).1).2) := rfl

theorem WellFormed.serve (calls : List (Operation CT × List Bool)) {w : World CT}
    (wellFormed : w.WellFormed) : (serve calls w).1.WellFormed := by
  induction calls generalizing w with
  | nil => exact wellFormed
  | cons call rest inductionHypothesis =>
      exact inductionHypothesis (wellFormed.run call.1.prog call.2)

/-- Operations served one after another, any of their requests failing, keep the registry and
the persisted table agreeing after every call, as long as no call fails midway through one of
the two partial updates. -/
theorem serve_agree_unless_partialUpdate (calls : List (Operation CT × List Bool))
    {w : World CT} (agree : w.Agree) (wellFormed : w.WellFormed)
    (complete : ∀ served ∈ calls.zip (serve calls w).2,
      served.1.1.leavesPartialUpdate served.2 = false) :
    (serve calls w).1.Agree := by
  induction calls generalizing w with
  | nil => exact agree
  | cons call rest inductionHypothesis =>
      rw [serve_cons] at complete ⊢
      have next := run_of_wp (call.1.wp_agree agree wellFormed) call.2
        (complete _ (List.mem_cons_self _ _))
      exact inductionHypothesis next (wellFormed.run _ _)
        fun served member => complete served (List.mem_cons_of_mem _ member)

/-- Reset, stop, re-create and delete the stream of `oneStreamWorld`, each returning nil. -/
def oneStreamCalls : List (Operation Unit × List Bool) :=
  [(.resetStream "a" "3", []), (.stopStream "a", []),
    (.upsertStream ⟨some "a", none, some "9", none⟩, []), (.deleteStream "a", [])]

/-- The same calls, where stopping fails, the reset fails at deleting the checkpoints and the
upsert fails its validation. -/
def oneStreamFailures : List (Operation Unit × List Bool) :=
  [(.stopStream "a", [false]), (.resetStream "a" "3", [true, false]),
    (.upsertStream ⟨some "a", none, some "9", none⟩, [false]), (.deleteStream "a", [])]

theorem serve_agree_unless_partialUpdate_oneStream :
    oneStreamWorld.Agree ∧ oneStreamWorld.WellFormed ∧
    (∀ served ∈ oneStreamFailures.zip (serve oneStreamFailures oneStreamWorld).2,
      served.1.1.leavesPartialUpdate served.2 = false) ∧
    (serve oneStreamFailures oneStreamWorld).1.Agree :=
  ⟨Agree.single _ _, WellFormed.single _ _, by decide,
    serve_agree_unless_partialUpdate oneStreamFailures (Agree.single _ _) (WellFormed.single _ _)
      (by decide)⟩

/-- `ResetStream` whose `UpdateSparse` fails has written the new initial sequence ID to the
stream and not to its row. -/
theorem resetStream_updateSparse_failure_disagrees :
    oneStreamWorld.Agree ∧
    ((Operation.resetStream "a" "3").prog.run [true, true, false] oneStreamWorld).2 =
      .error (.failed .eventStreamsUpdateSparse) ∧
    ¬ ((Operation.resetStream "a" "3").prog.run [true, true, false] oneStreamWorld).1.Agree :=
  ⟨Agree.single _ _, rfl, fun agree => absurd (agree "a") (by decide)⟩

end FireflyCommon.EventStreams
