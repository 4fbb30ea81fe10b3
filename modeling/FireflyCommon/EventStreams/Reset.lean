import FireflyCommon.EventStreams.Operations

set_option autoImplicit false

/-!
# `ResetStream`

A reset that returns nil has cleared the stream's checkpoint, moved its initial sequence ID in
memory and in its row, suspended it and restarted it exactly when its status is `started`, and
touched nothing that belongs to another stream.
-/

namespace FireflyCommon.EventStreams

open Prog

variable {CT : Type}

theorem status?_of_getElem? {w : World CT} {es : Nat} {stream : EventStream CT}
    (live : w.heap[es]? = some stream) : w.status? es = stream.spec.status := by
  simp [World.status?, live]

/-- What `ResetStream(id, sequenceID)` leaves behind when it returns nil, from the world `w`
in which `id` names the stream `es`, and the requests it made. -/
structure ResetOutcome (w : World CT) (id sequenceID : String) (es : Nat)
    (stream : EventStream CT) (reset : World CT) (made : List (Request CT)) : Prop where
  checkpointsCleared : reset.checkpoints = w.checkpoints.filter fun checkpoint => checkpoint.id ≠ id
  rowMoved : reset.eventStreams.find? id =
    (w.eventStreams.find? id).map ({ · with initialSequenceID := some sequenceID })
  streamMoved : reset.heap[es]? = some ⟨{ stream.spec with initialSequenceID := some sequenceID },
    decide (stream.spec.status = some .started)⟩
  requestsMade : made = [.suspend es, .checkpointsDeleteMany id,
    .eventStreamsUpdateSparse (.initialSequenceUpdate id sequenceID)] ++
      if stream.spec.status = some .started then [.start es] else []
  registryKept : reset.streams = w.streams
  otherStreamsKept : ∀ other, other ≠ es → reset.heap[other]? = w.heap[other]?
  otherRowsKept : ∀ other, other ≠ id → reset.eventStreams.find? other = w.eventStreams.find? other

theorem resetStream_ok_postcondition {w : World CT} {id sequenceID : String} {es : Nat}
    {stream : EventStream CT} (registered : w.streams.lookup id = some es)
    (live : w.heap[es]? = some stream) (plan : List Bool)
    (succeeded : ((resetStream id sequenceID).run plan w).2 = .ok ()) :
    ResetOutcome w id sequenceID es stream ((resetStream id sequenceID).run plan w).1
      ((resetStream id sequenceID).requests plan w) := by
  refine @run_of_wp CT Unit _ (fun reset result made => result = .ok () →
    ResetOutcome w id sequenceID es stream reset made) w ?_ plan succeeded
  rw [resetStream_wp, registered]
  simp only [status?_of_getElem? live]
  split
  case isTrue started =>
    simp only [reduceCtorEq, false_implies, true_and, forall_const]
    exact ⟨by simp, by simp, by simp [live, started], by simp [started], rfl,
      fun other different => by simp [Ne.symm different],
      fun other different => by simp [Ne.symm different]⟩
  case isFalse notStarted =>
    simp only [reduceCtorEq, false_implies, true_and, forall_const]
    exact ⟨by simp, by simp, by simp [live, notStarted], by simp [notStarted], rfl,
      fun other different => by simp [Ne.symm different],
      fun other different => by simp [Ne.symm different]⟩

/-- The spec of a started stream `"a"`. -/
def startedSpec : EventStreamSpec Unit := ⟨some "a", some .started, some "0", none⟩

/-- A manager with the stream `"a"` registered and running, checkpointed at `"7"`. -/
def oneStreamWorld : World Unit := .single ⟨startedSpec, true⟩ [⟨"a", some "7"⟩]

theorem resetStream_ok_postcondition_oneStream :
    oneStreamWorld.streams.lookup "a" = some 0 ∧
    oneStreamWorld.heap[0]? = some ⟨startedSpec, true⟩ ∧
    ((resetStream "a" "3").run [] oneStreamWorld).2 = .ok () ∧
    ResetOutcome oneStreamWorld "a" "3" 0 ⟨startedSpec, true⟩
      ((resetStream "a" "3").run [] oneStreamWorld).1
      ((resetStream "a" "3").requests [] oneStreamWorld) :=
  ⟨rfl, rfl, rfl, @resetStream_ok_postcondition Unit oneStreamWorld "a" "3" 0 _ rfl rfl [] rfl⟩

end FireflyCommon.EventStreams
