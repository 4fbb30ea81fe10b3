import FireflyCommon.EventStreams.Prog

set_option autoImplicit false

/-!
# The event-stream manager

The methods of `esManager` (`src/unnamed/part_000`), each written as the sequence of calls the
Go method makes. A `ctx` argument, logging and the TLS and WebSocket configuration do not
affect any call and are left out. Go mutates the caller's spec in place when it assigns an ID
or the default status; here the updated spec is passed on as a value.
-/

namespace FireflyCommon.EventStreams

open Prog

variable {CT : Type}

/-- `addStream` (lines 114-119): `esm.streams[es.spec.GetID()] = es` under `esm.mux`. -/
def addStream (es : Nat) : Prog CT Unit := ask (.addStream es)

/-- `getStream` (121-125): `esm.streams[id]` under `esm.mux`. -/
def getStream (id : String) : Prog CT (Option Nat) := ask (.getStream id)

/-- `removeStream` (127-131): `delete(esm.streams, id)` under `esm.mux`. -/
def removeStream (id : String) : Prog CT Unit := ask (.removeStream id)

/-- `const pageSize = 25` (134). -/
def pageSize : Nat := 25

/-- The loop over one page in `initialize` (145-157): a spec marked deleted is deleted from the
table, any other is built into a stream and registered. -/
def initializePage : List (EventStreamSpec CT) → Prog CT Unit
  | [] => pure ()
  | esSpec :: streams => do
      if esSpec.status = some .deleted then
        perform (.eventStreamsDelete esSpec.getID)
      else
        let es : Nat ← perform (.initEventStream esSpec)
        addStream es
      initializePage streams

/-- The paging loop of `initialize` (136-159) from `skip`, given at most `fuel` pages: `none`
when the fuel is spent before the loop breaks. -/
def initializeFrom : Nat → Nat → Prog CT (Option Unit)
  | 0, _ => pure none
  | fuel + 1, skip => do
      let streams : List (EventStreamSpec CT) ← perform (.eventStreamsGetMany skip pageSize)
      if streams.length = 0 then
        pure (some ())
      else
        initializePage streams
        initializeFrom fuel (skip + pageSize)

/-- `initialize` (133-161), run for at most `fuel` pages. The Go name is a Lean keyword. -/
def initializeManager (fuel : Nat) : Prog CT (Option Unit) := initializeFrom fuel 0

/-- `UpsertStream` (165-169): a spec without an ID gets a new one; otherwise the stream
registered under its ID is the one it replaces. -/
def assignID (esSpec : EventStreamSpec CT) : Prog CT (EventStreamSpec CT × Option Nat) :=
  if esSpec.id = none ∨ esSpec.getID.length = 0 then do
    let id : String ← ask .newID
    pure ({ esSpec with id := some id }, none)
  else do
    let existing ← getStream esSpec.getID
    pure (esSpec, existing)

/-- `UpsertStream` (172-177): the default status is `started`, and only `started` and
`stopped` are accepted. -/
def defaultStatus (esSpec : EventStreamSpec CT) : EventStreamSpec CT :=
  if esSpec.status = none then { esSpec with status := some .started } else esSpec

/-- `reInit` (193-209): suspend the stream being replaced, build and register the new one, and
start it when its status is `started`. -/
def reInit (esSpec : EventStreamSpec CT) (existing : Option Nat) : Prog CT Unit := do
  if let some existing := existing then
    perform (.suspend existing)
  let es : Nat ← perform (.initEventStream esSpec)
  addStream es
  let status : Option EventStreamStatus ← ask (.readStatus es)
  if status = some .started then
    ask (.ensureActive es)

/-- `UpsertStream` (163-191) up to the persisted write: the spec as stored, the stream it
replaces, and `isNew`. -/
def upsertSpec (esSpec : EventStreamSpec CT) :
    Prog CT (EventStreamSpec CT × Option Nat × Bool) := do
  let (esSpec, existing) ← assignID esSpec
  let esSpec := defaultStatus esSpec
  if esSpec.status ≠ some .started ∧ esSpec.status ≠ some .stopped then
    throw Error.msgESStartedOrStopped
  perform (.validateStream esSpec)
  let isNew : Bool ← perform (.eventStreamsUpsert esSpec)
  pure (esSpec, existing, isNew)

/-- `UpsertStream` (163-191): `isNew` together with the error of `reInit`. -/
def upsertStream (esSpec : EventStreamSpec CT) : Prog CT (Bool × Except Error Unit) := do
  match ← (upsertSpec esSpec).attempt with
  | .error error => pure (false, .error error)
  | .ok (esSpec, existing, isNew) =>
      let result ← (reInit esSpec existing).attempt
      pure (isNew, result)

/-- `DeleteStream` (211-225). -/
def deleteStream (id : String) : Prog CT Unit := do
  let some es ← getStream id | throw Error.msg404NoResult
  perform (.delete es)
  perform (.eventStreamsDelete id)
  removeStream id

/-- `StopStream` (227-233). -/
def stopStream (id : String) : Prog CT Unit := do
  let some es ← getStream id | throw Error.msg404NoResult
  perform (.stop es)

/-- `ResetStream` (235-261). -/
def resetStream (id sequenceID : String) : Prog CT Unit := do
  let some es ← getStream id | throw Error.msg404NoResult
  perform (.suspend es)
  perform (.checkpointsDeleteMany id)
  ask (.setInitialSequenceID es sequenceID)
  perform (.eventStreamsUpdateSparse (.initialSequenceUpdate id sequenceID))
  let status : Option EventStreamStatus ← ask (.readStatus es)
  if status = some .started then
    perform (.start es)

/-- `StartStream` (263-269). -/
def startStream (id : String) : Prog CT Unit := do
  let some es ← getStream id | throw Error.msg404NoResult
  perform (.start es)

/-- The loop of `Close` (306-310): suspend every stream, logging a failure and going on. -/
def suspendAll : List Nat → Prog CT Unit
  | [] => pure ()
  | es :: streams => do
      let _ ← (perform (.suspend es)).attempt
      suspendAll streams

/-- `Close` (305-311): suspend every registered stream. -/
def close : Prog CT Unit := do
  let streams : List Nat ← ask .listStreams
  suspendAll streams

/-- `enrichGetStream` (271-282): the status of the stream registered under the spec's ID, with
that stream's own spec, or the spec with status unknown when none is registered. (A registry
entry always names a stream object: `WellFormed`.) -/
def enrichGetStream (esSpec : EventStreamSpec CT) : Prog CT (EventStreamWithStatus CT) := do
  let some es ← getStream esSpec.getID | pure ⟨esSpec, .unknown⟩
  let some stream ← ask (.readStream es) | pure ⟨esSpec, .unknown⟩
  pure stream.status

/-- `GetStreamByID` (297-303), called with the option that makes a missing row an error
(`Msg404NoResult`); without it the persistence layer returns a nil spec, which
`enrichGetStream` dereferences. -/
def getStreamByID (id : String) : Prog CT (EventStreamWithStatus CT) := do
  let some esSpec ← perform (.eventStreamsGetByID id) | throw Error.msg404NoResult
  enrichGetStream esSpec

/-- The loop of `ListStreams` (290-293): each spec read is enriched in turn. -/
def enrichAll : List (EventStreamSpec CT) → Prog CT (List (EventStreamWithStatus CT))
  | [] => pure []
  | esSpec :: results => do
      let enriched ← enrichGetStream esSpec
      let rest ← enrichAll results
      pure (enriched :: rest)

/-- `ListStreams` (284-295), for a filter that reads one page. -/
def listStreams (skip limit : Nat) : Prog CT (List (EventStreamWithStatus CT)) := do
  let results : List (EventStreamSpec CT) ← perform (.eventStreamsGetMany skip limit)
  enrichAll results

/-- The calls a caller makes on a running manager. -/
inductive Operation (CT : Type) where
  | upsertStream (esSpec : EventStreamSpec CT)
  | startStream (id : String)
  | stopStream (id : String)
  | resetStream (id sequenceID : String)
  | deleteStream (id : String)

/-- The method an operation calls, with its error as the program's error. -/
def Operation.prog : Operation CT → Prog CT Unit
  | .upsertStream esSpec => do
      let (_, result) ← EventStreams.upsertStream esSpec
      Prog.ofExcept result
  | .startStream id => EventStreams.startStream id
  | .stopStream id => EventStreams.stopStream id
  | .resetStream id sequenceID => EventStreams.resetStream id sequenceID
  | .deleteStream id => EventStreams.deleteStream id

/-- Operations served one after another, each to completion under its own fault plan: the
final world and each operation's result. -/
def serve : List (Operation CT × List Bool) → World CT → World CT × List (Except Error Unit)
  | [], w => (w, [])
  | (operation, plan) :: rest, w =>
      let (next, result) := operation.prog.run plan w
      let (final, results) := serve rest next
      (final, result :: results)

end FireflyCommon.EventStreams
