import FireflyCommon.EventStreams.Manager

set_option autoImplicit false

/-!
# What each manager method can do

One lemma per method, giving its weakest precondition as the list of its outcomes: for each
request that can fail, the world, the error and the requests made when it is the first to fail,
and the world and the requests made when none fails. Every later property of a method is read
off its lemma here; none of them unfolds the method again.
-/

namespace FireflyCommon.EventStreams

open Prog

variable {CT : Type}

section

variable (post : World CT → Except Error Unit → List (Request CT) → Prop) (w : World CT)

theorem startStream_wp (id : String) :
    (startStream id).wp post w ↔
      match w.streams.lookup id with
      | none => post w (.error .msg404NoResult) []
      | some es =>
          post w (.error (.failed .start)) [.start es] ∧
            post (w.setActive es true) (.ok ()) [.start es] := by
  cases registered : w.streams.lookup id <;>
    simp [startStream, getStream, ask, perform, registered]

theorem stopStream_wp (id : String) :
    (stopStream id).wp post w ↔
      match w.streams.lookup id with
      | none => post w (.error .msg404NoResult) []
      | some es =>
          post w (.error (.failed .stop)) [.stop es] ∧
            post (w.recordStatus es .stopped) (.ok ()) [.stop es] := by
  cases registered : w.streams.lookup id <;>
    simp [stopStream, getStream, ask, perform, registered]

theorem deleteStream_wp (id : String) :
    (deleteStream id).wp post w ↔
      match w.streams.lookup id with
      | none => post w (.error .msg404NoResult) []
      | some es =>
          post w (.error (.failed .delete)) [.delete es] ∧
            post (w.recordStatus es .deleted) (.error (.failed .eventStreamsDelete))
              [.delete es, .eventStreamsDelete id] ∧
            post (((w.recordStatus es .deleted).deleteSpec id).removeStream id) (.ok ())
              [.delete es, .eventStreamsDelete id] := by
  cases registered : w.streams.lookup id <;>
    simp [deleteStream, getStream, removeStream, ask, perform, registered]

theorem resetStream_wp (id sequenceID : String) :
    (resetStream id sequenceID).wp post w ↔
      match w.streams.lookup id with
      | none => post w (.error .msg404NoResult) []
      | some es =>
          let suspended := w.setActive es false
          let cleared := (suspended.deleteCheckpoints id).setInitialSequenceID es sequenceID
          let reset := cleared.updateSparse (.initialSequenceUpdate id sequenceID)
          let made := [.suspend es, .checkpointsDeleteMany id,
            .eventStreamsUpdateSparse (.initialSequenceUpdate id sequenceID)]
          post w (.error (.failed .suspend)) [.suspend es] ∧
          post suspended (.error (.failed .checkpointsDeleteMany))
            [.suspend es, .checkpointsDeleteMany id] ∧
          post cleared (.error (.failed .eventStreamsUpdateSparse)) made ∧
          if w.status? es = some .started then
            post reset (.error (.failed .start)) (made ++ [.start es]) ∧
              post (reset.setActive es true) (.ok ()) (made ++ [.start es])
          else post reset (.ok ()) made := by
  cases registered : w.streams.lookup id <;>
    simp [resetStream, getStream, ask, perform, registered]
  split <;> simp

/-- The methods that look a stream up return `Msg404NoResult` for an ID with no registered
stream, having changed nothing. -/
theorem run_unregistered (id sequenceID : String) (plan : List Bool)
    (unregistered : w.streams.lookup id = none) :
    (startStream id).run plan w = (w, .error .msg404NoResult) ∧
    (stopStream id).run plan w = (w, .error .msg404NoResult) ∧
    (resetStream id sequenceID).run plan w = (w, .error .msg404NoResult) ∧
    (deleteStream id).run plan w = (w, .error .msg404NoResult) := by
  have unchanged (p : Prog CT Unit) (rejects : p.wp (fun w' result _ =>
      (w', result) = (w, .error .msg404NoResult)) w) : p.run plan w = (w, .error .msg404NoResult) :=
    run_of_wp rejects plan
  refine ⟨unchanged _ ?_, unchanged _ ?_, unchanged _ ?_, unchanged _ ?_⟩ <;>
    simp [startStream_wp, stopStream_wp, resetStream_wp, deleteStream_wp, unregistered]

example : (resetStream "a" "3").run [] (World.boot .empty [] : World Unit) =
    (World.boot .empty [], .error .msg404NoResult) :=
  (run_unregistered (World.boot .empty []) "a" "3" [] rfl).2.2.1

end

@[simp]
theorem getID_defaultStatus (esSpec : EventStreamSpec CT) :
    (defaultStatus esSpec).getID = esSpec.getID := by
  unfold defaultStatus
  split <;> rfl

/-- The spec `UpsertStream` stores, and the stream registered under its ID that it replaces. -/
def World.upsertTarget (w : World CT) (esSpec : EventStreamSpec CT) :
    EventStreamSpec CT × Option Nat :=
  if esSpec.id = none ∨ esSpec.getID.length = 0 then
    (defaultStatus { esSpec with id := some w.newID }, none)
  else (defaultStatus esSpec, w.streams.lookup esSpec.getID)

/-- The stream `UpsertStream` replaces is the one registered under the ID of the spec it stores. -/
theorem World.lookup_upsertTarget (w : World CT) (esSpec : EventStreamSpec CT) :
    w.streams.lookup (w.upsertTarget esSpec).1.getID = (w.upsertTarget esSpec).2 := by
  by_cases fresh : esSpec.id = none ∨ esSpec.getID.length = 0
  · rw [World.upsertTarget, if_pos fresh, getID_defaultStatus]
    exact AList.lookup_eq_none.mpr w.newID_not_mem_streams
  · rw [World.upsertTarget, if_neg fresh, getID_defaultStatus]

@[simp]
theorem status?_newEventStream (w : World CT) (spec : EventStreamSpec CT) {es : Nat}
    (fresh : w.heap.length = es) :
    ((w.newEventStream spec).1.addStream es).status? es = spec.status := by
  subst fresh
  simp only [World.status?, World.heap_addStream, World.newEventStream, List.getElem?_concat_length,
    Option.some_bind]

theorem upsertSpec_wp (esSpec : EventStreamSpec CT)
    (post : World CT → Except Error (EventStreamSpec CT × Option Nat × Bool) →
      List (Request CT) → Prop) (w : World CT) :
    (upsertSpec esSpec).wp post w ↔
      let spec := (w.upsertTarget esSpec).1
      let existing := (w.upsertTarget esSpec).2
      if spec.status ≠ some .started ∧ spec.status ≠ some .stopped then
        post w (.error .msgESStartedOrStopped) []
      else
        post w (.error (.failed .validateStream)) [.validateStream spec] ∧
        post w (.error (.failed .eventStreamsUpsert)) [.validateStream spec, .eventStreamsUpsert spec] ∧
        post (w.upsertSpec spec).1 (.ok (spec, existing, (w.upsertSpec spec).2))
          [.validateStream spec, .eventStreamsUpsert spec] := by
  unfold upsertSpec assignID World.upsertTarget
  split <;> simp [getStream, ask, perform] <;> split <;> simp_all

theorem reInit_wp (spec : EventStreamSpec CT) (existing : Option Nat)
    (post : World CT → Except Error Unit → List (Request CT) → Prop) (w : World CT) :
    (reInit spec existing).wp post w ↔
      let build := fun (w : World CT) (made : List (Request CT)) =>
        let registered := (w.newEventStream spec).1.addStream w.heap.length
        post w (.error (.failed .initEventStream)) (made ++ [.initEventStream spec]) ∧
        if spec.status = some .started then
          post (registered.setActive w.heap.length true) (.ok ()) (made ++ [.initEventStream spec])
        else post registered (.ok ()) (made ++ [.initEventStream spec])
      match existing with
      | none => build w []
      | some old =>
          post w (.error (.failed .suspend)) [.suspend old] ∧
            build (w.setActive old false) [.suspend old] := by
  cases existing <;> simp [reInit, addStream, ask, perform] <;> split <;> simp

theorem upsertStream_wp (esSpec : EventStreamSpec CT)
    (post : World CT → Except Error (Bool × Except Error Unit) → List (Request CT) → Prop)
    (w : World CT) :
    (upsertStream esSpec).wp post w ↔
      (upsertSpec esSpec).wp (fun w result made => match result with
        | .error error => post w (.ok (false, .error error)) made
        | .ok (spec, existing, isNew) =>
            (reInit spec existing).wp
              (fun w result rest => post w (.ok (isNew, result)) (made ++ rest)) w) w := by
  simp only [upsertStream, bind_eq, wp_bind, wp_attempt]
  constructor <;> refine fun holds => wp_mono holds fun w result made => ?_ <;>
    rcases result with error | ⟨spec, existing, isNew⟩ <;> simp [wp_bind]

/-- `UpsertStream` of a spec whose status is `deleted` returns `MsgESStartedOrStopped`, having
changed nothing. -/
theorem upsertStream_rejects_deleted (esSpec : EventStreamSpec CT) (plan : List Bool)
    (w : World CT) (deleted : esSpec.status = some .deleted) :
    (upsertStream esSpec).run plan w = (w, .ok (false, .error .msgESStartedOrStopped)) := by
  have status : (w.upsertTarget esSpec).1.status = some .deleted := by
    unfold World.upsertTarget defaultStatus
    split <;> simp [deleted]
  have rejects : (upsertStream esSpec).wp (fun w' result _ =>
      (w', result) = (w, .ok (false, .error .msgESStartedOrStopped))) w := by
    rw [upsertStream_wp, upsertSpec_wp]
    simp [status]
  exact run_of_wp rejects plan

example : (upsertStream ⟨some "a", some .deleted, none, none⟩).run [] (World.boot .empty [] : World Unit) =
    (World.boot .empty [], .ok (false, .error .msgESStartedOrStopped)) :=
  upsertStream_rejects_deleted _ [] _ rfl

end FireflyCommon.EventStreams
