import FireflyCommon.EventStreams.Agreement

set_option autoImplicit false

/-!
# Reading streams

`GetStreamByID` and `ListStreams` read specs from the `event_streams` table and hand each to
`enrichGetStream`, which returns the status of the stream registered under the spec's ID, and
that status carries the stream's own spec. The row read is returned only when no stream is
registered. So a read reports the persisted spec when the registry agrees with the table, and
after a `ResetStream` whose `UpdateSparse` failed it reports an initial sequence ID that the
table does not hold.
-/

namespace FireflyCommon.EventStreams

open Prog

variable {CT : Type}

section

variable (w : World CT)

end

/-- After a `ResetStream` whose `UpdateSparse` fails, the row keeps its initial sequence ID and
`GetStreamByID` reports the new one, from the stream it suspended. -/
theorem getStreamByID_after_failed_reset {w : World CT} {id sequenceID : String} {es : Nat}
    {stream : EventStream CT} {row : EventStreamSpec CT} (registered : w.streams.lookup id = some es)
    (live : w.heap[es]? = some stream) (persisted : w.eventStreams.find? id = some row) :
    ((resetStream id sequenceID).run [true, true, false] w).2 =
        .error (.failed .eventStreamsUpdateSparse) ∧
      ((resetStream id sequenceID).run [true, true, false] w).1.eventStreams.find? id = some row ∧
      ((getStreamByID id).run [] ((resetStream id sequenceID).run [true, true, false] w).1).2 =
        .ok ⟨{ stream.spec with initialSequenceID := some sequenceID }, .live false⟩ := by
  have reset : (resetStream id sequenceID).run [true, true, false] w =
      (((w.setActive es false).deleteCheckpoints id).setInitialSequenceID es sequenceID,
        .error (.failed .eventStreamsUpdateSparse)) := by
    simp [resetStream, getStream, ask, perform, Prog.run, Request.answer, registered]
  rw [reset]
  refine ⟨rfl, by simpa using persisted, ?_⟩
  obtain rfl := SpecTable.getID_of_find? persisted
  simp [getStreamByID, perform, Prog.run, Request.answer, persisted, enrichGetStream, getStream,
    ask, registered, live, EventStream.status]

theorem getStreamByID_after_failed_reset_oneStream :
    oneStreamWorld.streams.lookup "a" = some 0 ∧ oneStreamWorld.heap[0]? = some ⟨startedSpec, true⟩ ∧
      oneStreamWorld.eventStreams.find? "a" = some startedSpec ∧
      ((resetStream "a" "3").run [true, true, false] oneStreamWorld).2 =
        .error (.failed .eventStreamsUpdateSparse) ∧
      ((resetStream "a" "3").run [true, true, false] oneStreamWorld).1.eventStreams.find? "a" =
        some startedSpec ∧
      ((getStreamByID "a").run [] ((resetStream "a" "3").run [true, true, false] oneStreamWorld).1).2 =
        .ok ⟨{ startedSpec with initialSequenceID := some "3" }, .live false⟩ :=
  ⟨rfl, rfl, rfl,
    @getStreamByID_after_failed_reset Unit oneStreamWorld "a" "3" 0 _ _ rfl rfl rfl⟩

end FireflyCommon.EventStreams
