import Mathlib.Data.List.AList

set_option autoImplicit false

/-!
# Event-stream specs, checkpoints and live streams

The records the event-stream manager reads (`src/unnamed/part_000`). A spec is kept with
the fields the manager looks at: its ID, its status and its initial sequence ID. The typed
configuration stands for every field the manager only copies as part of the spec.
-/

namespace FireflyCommon.EventStreams

/-- `EventStreamStatus`. Only `started` and `stopped` can be asserted by a caller. -/
inductive EventStreamStatus where
  | started
  | stopped
  | deleted
  deriving DecidableEq, Repr

/-- `EventStreamSpec[CT]`: the persisted description of one stream. -/
structure EventStreamSpec (CT : Type) where
  id : Option String
  status : Option EventStreamStatus
  initialSequenceID : Option String
  config : Option CT
  deriving DecidableEq, Repr

variable {CT : Type}

namespace EventStreamSpec

/-- `GetID`: the ID, read as the empty string while it is unset. -/
def getID (spec : EventStreamSpec CT) : String := spec.id.getD ""

@[simp]
theorem getID_of_id {spec : EventStreamSpec CT} {id : String} (assigned : spec.id = some id) :
    spec.getID = id := by
  simp [getID, assigned]

/-- The partial spec of a sparse update: only the fields that are set are written. -/
def merge (row sparse : EventStreamSpec CT) : EventStreamSpec CT :=
  { row with
    status := sparse.status.or row.status
    initialSequenceID := sparse.initialSequenceID.or row.initialSequenceID
    config := sparse.config.or row.config }

@[simp]
theorem getID_merge (row sparse : EventStreamSpec CT) :
    (row.merge sparse).getID = row.getID := rfl

/-- The sparse update `ResetStream` writes: `{ID: &id, InitialSequenceID: &sequenceID}`. -/
def initialSequenceUpdate (id sequenceID : String) : EventStreamSpec CT :=
  ⟨some id, none, some sequenceID, none⟩

/-- The sparse update a stream writes when it records a new status. -/
def statusUpdate (id : Option String) (status : EventStreamStatus) : EventStreamSpec CT :=
  ⟨id, some status, none, none⟩

@[simp]
theorem merge_initialSequenceUpdate (row : EventStreamSpec CT) (id sequenceID : String) :
    row.merge (initialSequenceUpdate id sequenceID) =
      { row with initialSequenceID := some sequenceID } := rfl

@[simp]
theorem merge_statusUpdate (row : EventStreamSpec CT) (id : Option String)
    (status : EventStreamStatus) :
    row.merge (statusUpdate id status) = { row with status := some status } := rfl

@[simp]
theorem getID_initialSequenceUpdate (id sequenceID : String) :
    (initialSequenceUpdate id sequenceID : EventStreamSpec CT).getID = id := rfl

@[simp]
theorem getID_statusUpdate (spec : EventStreamSpec CT) (status : EventStreamStatus) :
    (statusUpdate spec.id status : EventStreamSpec CT).getID = spec.getID := rfl

end EventStreamSpec

/-- `EventStreamCheckpoint`: the last sequence ID delivered by the stream `id`. -/
structure EventStreamCheckpoint where
  id : String
  sequenceID : Option String
  deriving DecidableEq, Repr

/-- The persistence call or stream step whose error a request returned. -/
inductive Origin where
  | validateStream
  | eventStreamsGetMany
  | eventStreamsGetByID
  | eventStreamsUpsert
  | eventStreamsDelete
  | eventStreamsUpdateSparse
  | checkpointsDeleteMany
  | initEventStream
  | suspend
  | start
  | stop
  | delete
  deriving DecidableEq, Repr

/-- The errors the manager returns: its own two messages, or the error of a call it made. -/
inductive Error where
  | msg404NoResult
  | msgESStartedOrStopped
  | failed (origin : Origin)
  deriving DecidableEq, Repr

/-- Modelled from the spec: `eventStream[CT, DT]` (§3 LiveStream, §4.4), whose definition is
not in the source. The manager sees its spec snapshot and whether its producer and dispatcher
tasks are running (`Starting` or `Running`). -/
structure EventStream (CT : Type) where
  spec : EventStreamSpec CT
  active : Bool
  deriving DecidableEq, Repr

/-- Modelled from the spec: the status a read reports with a spec (§4.5). A registered stream
reports its live state, here whether its tasks run; a spec with no stream registered under its
ID reports `EventStreamStatusUnknown`. -/
inductive ReportedStatus where
  | live (active : Bool)
  | unknown
  deriving DecidableEq, Repr

/-- `EventStreamWithStatus[CT]`: a spec with the status reported for it. -/
structure EventStreamWithStatus (CT : Type) where
  spec : EventStreamSpec CT
  status : ReportedStatus
  deriving DecidableEq, Repr

/-- Modelled from the spec: `es.Status(ctx)`, the stream's own spec with its live state. -/
def EventStream.status (stream : EventStream CT) : EventStreamWithStatus CT :=
  ⟨stream.spec, .live stream.active⟩

end FireflyCommon.EventStreams
