import FireflyCommon.EventStreams.Interleaving

set_option autoImplicit false

/-!
# Calls on different streams

`StartStream`, `StopStream`, `ResetStream` and `DeleteStream` read the registry entry of their ID
once, under `esm.mux`, and from then on call only the stream object that entry named, the row
with their ID and the checkpoints of their ID. So calls on different IDs do not interfere: in
every interleaving each call returns what it returns alone, under the same request outcomes,
and leaves its registry entry, stream, row and checkpoints as it leaves them alone; the entries,
rows and checkpoints of the IDs no call names stay as they were. `UpsertStream` is left out: the
stream object it builds goes at the end of the heap, at a position the other calls decide. The
checkpoints are those the manager's requests write; a running stream's dispatcher also writes
its own stream's checkpoint, which is not modelled.
-/

namespace FireflyCommon.EventStreams

open Prog Relation

variable {CT : Type}

/-- The stream an operation other than `UpsertStream` is called on. -/
def Operation.target : Operation CT → Option String
  | .upsertStream _ => none
  | .startStream id => some id
  | .stopStream id => some id
  | .resetStream id _ => some id
  | .deleteStream id => some id

/-- What a call on one stream reads and writes: the registry entry for its ID, the stream object
that entry named when the call began, the row with its ID and the checkpoints of its ID. -/
structure StreamView (CT : Type) where
  entry : Option Nat
  stream : Option (EventStream CT)
  row : Option (EventStreamSpec CT)
  checkpoints : List EventStreamCheckpoint

/-- The view of the stream `id`, found in the registry as `es` when the call on it began. -/
def World.view (w : World CT) (id : String) (es : Option Nat) : StreamView CT :=
  ⟨w.streams.lookup id, es.bind (w.heap[·]?), w.eventStreams.find? id,
    w.checkpoints.filter (·.id = id)⟩

theorem World.view_none_of_view {w₁ w₂ : World CT} {id : String} {es : Option Nat}
    (viewed : w₁.view id es = w₂.view id es) : w₁.view id none = w₂.view id none := by
  simp only [World.view, StreamView.mk.injEq] at viewed ⊢
  exact ⟨viewed.1, rfl, viewed.2.2⟩

/-- An access on the stream `id` found as `es`, made after its registry entry was read. -/
def Access.OnStream (id : String) (es : Option Nat) : Access → Prop
  | .removeStream other => other = id
  | .readStatus e | .readStream e | .setInitialSequenceID e _ | .ensureActive e => some e = es
  | _ => False

/-- A request on the stream `id` found as `es`. -/
def Request.OnStream (id : String) (es : Option Nat) : Request CT → Prop
  | .eventStreamsDelete other | .checkpointsDeleteMany other => other = id
  | .eventStreamsUpdateSparse sparse => sparse.getID = id
  | .suspend e | .start e | .stop e | .delete e => some e = es
  | _ => False

/-- Every call the program makes, whatever the answers, is on the stream `id` found as `es`. -/
def Prog.OnStream {α : Type} (id : String) (es : Option Nat) : Prog CT α → Prop
  | .ret _ => True
  | .fail _ => True
  | .access call next => call.OnStream id es ∧ ∀ answer, (next answer).OnStream id es
  | .request call next => call.OnStream id es ∧ ∀ answer, (next answer).OnStream id es

namespace Prog

variable {α γ : Type} {id : String} {es : Option Nat}

theorem OnStream.bind {p : Prog CT α} {f : α → Prog CT γ} (first : p.OnStream id es)
    (rest : ∀ value, (f value).OnStream id es) : (p.bind f).OnStream id es := by
  induction p with
  | ret value => exact rest value
  | fail error => trivial
  | access call next inductionHypothesis =>
      exact ⟨first.1, fun answer => inductionHypothesis answer (first.2 answer)⟩
  | request call next inductionHypothesis =>
      exact ⟨first.1, fun answer => inductionHypothesis answer (first.2 answer)⟩

theorem onStream_perform {call : Request CT} (onStream : call.OnStream id es) :
    (perform call).OnStream id es :=
  ⟨onStream, fun answer => by cases answer <;> trivial⟩

theorem onStream_ask {call : Access} (onStream : call.OnStream id es) :
    (ask call : Prog CT (call.Result CT)).OnStream id es :=
  ⟨onStream, fun _ => trivial⟩

end Prog

/-- An operation on a stream first reads the registry entry of its ID, and every call after that
is on the stream that entry names. -/
theorem Operation.prog_onStream {operation : Operation CT} {id : String}
    (target : operation.target = some id) :
    ∃ next, operation.prog = .access (.getStream id) next ∧ ∀ es, (next es).OnStream id es := by
  cases operation with
  | upsertStream => cases target
  | startStream | stopStream =>
      cases target
      refine ⟨_, rfl, fun es => ?_⟩
      cases es with
      | none => trivial
      | some e => exact onStream_perform rfl
  | resetStream _ sequenceID =>
      cases target
      refine ⟨_, rfl, fun es => ?_⟩
      cases es with
      | none => trivial
      | some e =>
          dsimp only [ret_bind]
          refine OnStream.bind (onStream_perform rfl) fun _ => ?_
          refine OnStream.bind (onStream_perform rfl) fun _ => ?_
          refine OnStream.bind (onStream_ask rfl) fun _ => ?_
          refine OnStream.bind (onStream_perform rfl) fun _ => ?_
          refine OnStream.bind (onStream_ask rfl) fun status => ?_
          split
          · exact onStream_perform rfl
          · trivial
  | deleteStream =>
      cases target
      refine ⟨_, rfl, fun es => ?_⟩
      cases es with
      | none => trivial
      | some e =>
          dsimp only [ret_bind]
          refine OnStream.bind (onStream_perform rfl) fun _ => ?_
          refine OnStream.bind (onStream_perform rfl) fun _ => ?_
          exact onStream_ask rfl

/-! ## One call on one stream -/

section

variable {id other : String} {es es' : Option Nat} {w w₁ w₂ : World CT}

/-- An access on one stream answers, and leaves that stream's view, as the view alone says. -/
theorem Access.exec_view_local {call : Access} (onStream : call.OnStream id es)
    (same : w₁.view id es = w₂.view id es) :
    (call.exec w₁).2 = (call.exec w₂).2 ∧ (call.exec w₁).1.view id es = (call.exec w₂).1.view id es := by
  simp only [World.view, StreamView.mk.injEq] at same ⊢
  obtain ⟨entry, stream, row, checkpoints⟩ := same
  cases call with
  | removeStream key =>
      subst onStream
      simp [World.removeStream, stream, row, checkpoints]
  | readStatus e | readStream e | setInitialSequenceID e _ | ensureActive e =>
      subst onStream
      simp only [Option.bind] at stream
      simp [World.status?, entry, stream, row, checkpoints]
  | getStream | addStream | listStreams | newID => exact False.elim onStream

/-- An access on one stream leaves the view of any other ID and stream object as it was. -/
theorem Access.exec_view_frame {call : Access} (onStream : call.OnStream id es) (apart : other ≠ id)
    (separate : ∀ e e', es = some e → es' = some e' → e ≠ e') :
    (call.exec w).1.view other es' = w.view other es' := by
  simp only [World.view, StreamView.mk.injEq]
  cases call with
  | removeStream key =>
      subst onStream
      simp [World.removeStream, AList.lookup_erase_ne apart]
  | readStatus | readStream => simp
  | setInitialSequenceID e _ | ensureActive e =>
      cases es' with
      | none => simp
      | some e' => simp [separate e e' onStream.symm rfl]
  | getStream | addStream | listStreams | newID => exact False.elim onStream

/-- A request on one stream answers, and leaves that stream's view, as the view alone says. -/
theorem Request.exec_view_local {call : Request CT} (onStream : call.OnStream id es)
    (same : w₁.view id es = w₂.view id es) :
    (call.exec w₁).2 = (call.exec w₂).2 ∧ (call.exec w₁).1.view id es = (call.exec w₂).1.view id es := by
  simp only [World.view, StreamView.mk.injEq] at same ⊢
  obtain ⟨entry, stream, row, checkpoints⟩ := same
  cases call with
  | eventStreamsDelete key =>
      subst onStream
      simp [entry, stream, checkpoints]
  | checkpointsDeleteMany key =>
      subst onStream
      simp [entry, stream, row, List.filter_filter]
  | eventStreamsUpdateSparse sparse =>
      simp [onStream, entry, stream, row, checkpoints]
  | suspend e | start e =>
      subst onStream
      simp only [Option.bind] at stream
      simp [entry, stream, row, checkpoints]
  | stop e | delete e =>
      subst onStream
      simp only [Option.bind] at stream
      simp only [Request.exec, World.recordStatus_streams, World.recordStatus_heap,
        World.recordStatus_eventStreams, World.recordStatus_checkpoints, Option.bind,
        World.getElem?_modify_heap, if_true, stream, entry, checkpoints, and_true, true_and]
      cases w₂.heap[e]? <;> simp [row]
  | validateStream | eventStreamsGetMany | eventStreamsGetByID | eventStreamsUpsert
    | initEventStream => exact False.elim onStream

/-- Recording a status on a stream whose spec has the ID `id` leaves the view of any other ID,
and of any other stream object, as it was. -/
theorem World.recordStatus_view_frame {e : Nat} (status : EventStreamStatus)
    (keyed : ∀ stream, w.heap[e]? = some stream → stream.spec.getID = id) (apart : other ≠ id)
    (separate : ∀ e', es' = some e' → e ≠ e') :
    (w.recordStatus e status).view other es' = w.view other es' := by
  simp only [World.view, StreamView.mk.injEq, recordStatus_streams, recordStatus_checkpoints,
    recordStatus_heap, recordStatus_eventStreams, true_and, and_true]
  constructor
  · cases es' with
    | none => rfl
    | some e' => simp [getElem?_modify_heap, separate e' rfl]
  · split
    · next stream found =>
        rw [SpecTable.find?_updateSparse, EventStreamSpec.getID_statusUpdate, keyed stream found,
          if_neg apart.symm]
    · rfl

/-- A request on one stream leaves the view of any other ID and stream object as it was, given
that the stream object's spec has the stream's ID. -/
theorem Request.exec_view_frame {call : Request CT} (onStream : call.OnStream id es)
    (keyed : ∀ e stream, es = some e → w.heap[e]? = some stream → stream.spec.getID = id)
    (apart : other ≠ id) (separate : ∀ e e', es = some e → es' = some e' → e ≠ e') :
    (call.exec w).1.view other es' = w.view other es' := by
  simp only [World.view, StreamView.mk.injEq]
  cases call with
  | eventStreamsDelete key =>
      subst onStream
      simp [Ne.symm apart]
  | checkpointsDeleteMany key =>
      subst onStream
      refine ⟨rfl, rfl, rfl, ?_⟩
      simp only [Request.exec, World.deleteCheckpoints_checkpoints, List.filter_filter]
      refine List.filter_congr fun checkpoint _ => ?_
      by_cases named : checkpoint.id = other
      · simp [named, apart]
      · simp [named]
  | eventStreamsUpdateSparse sparse =>
      have sameID : sparse.getID = id := onStream
      simp [sameID, Ne.symm apart]
  | suspend e | start e =>
      cases es' with
      | none => simp
      | some e' => simp [separate e e' onStream.symm rfl]
  | stop e =>
      have framed := World.recordStatus_view_frame .stopped (fun stream => keyed e stream onStream.symm)
        apart fun e' => separate e e' onStream.symm
      simpa only [World.view, StreamView.mk.injEq] using framed
  | delete e =>
      have framed := World.recordStatus_view_frame .deleted (fun stream => keyed e stream onStream.symm)
        apart fun e' => separate e e' onStream.symm
      simpa only [World.view, StreamView.mk.injEq] using framed
  | validateStream | eventStreamsGetMany | eventStreamsGetByID | eventStreamsUpsert
    | initEventStream => exact False.elim onStream

theorem Request.answer_view_local {call : Request CT} (onStream : call.OnStream id es)
    (same : w₁.view id es = w₂.view id es) (ok : Bool) :
    (call.answer ok w₁).2 = (call.answer ok w₂).2 ∧
      (call.answer ok w₁).1.view id es = (call.answer ok w₂).1.view id es := by
  obtain ⟨answered, viewed⟩ := call.exec_view_local onStream same
  cases ok
  · exact ⟨rfl, same⟩
  · exact ⟨congrArg Except.ok answered, viewed⟩

/-- A write to the fields of a stream object keeps the ID of its spec. -/
theorem map_getID_modify (heap : List (EventStream CT)) {f : EventStream CT → EventStream CT}
    (keepsID : ∀ stream, (f stream).spec.getID = stream.spec.getID) (e : Nat) :
    (heap.modify f e).map (·.spec.getID) = heap.map (·.spec.getID) := by
  refine List.ext_getElem? fun other => ?_
  rw [List.getElem?_map, List.getElem?_map, World.getElem?_modify_heap]
  split <;> cases heap[other]? <;> simp [keepsID]

theorem Access.exec_heapIDs {call : Access} (onStream : call.OnStream id es) :
    (call.exec w).1.heap.map (·.spec.getID) = w.heap.map (·.spec.getID) := by
  cases call with
  | removeStream | readStatus | readStream => rfl
  | setInitialSequenceID e sequenceID | ensureActive e =>
      refine map_getID_modify w.heap ?_ e
      exact fun _ => rfl
  | getStream | addStream | listStreams | newID => exact False.elim onStream

theorem Request.exec_heapIDs {call : Request CT} (onStream : call.OnStream id es) :
    (call.exec w).1.heap.map (·.spec.getID) = w.heap.map (·.spec.getID) := by
  cases call with
  | eventStreamsDelete | checkpointsDeleteMany | eventStreamsUpdateSparse => rfl
  | suspend e | start e | stop e | delete e =>
      refine map_getID_modify w.heap ?_ e
      exact fun _ => rfl
  | validateStream | eventStreamsGetMany | eventStreamsGetByID | eventStreamsUpsert
    | initEventStream => exact False.elim onStream

/-- An access on one stream leaves every other stream object as it was. -/
theorem Access.exec_heap_frame {call : Access} (onStream : call.OnStream id es) {e : Nat}
    (separate : es ≠ some e) : (call.exec w).1.heap[e]? = w.heap[e]? := by
  cases call with
  | removeStream | readStatus | readStream => rfl
  | setInitialSequenceID e' _ | ensureActive e' =>
      have different : e' ≠ e := fun same => separate (same ▸ onStream).symm
      simp [World.setInitialSequenceID, World.setActive, World.getElem?_modify_heap, different]
  | getStream | addStream | listStreams | newID => exact False.elim onStream

/-- A request on one stream leaves every other stream object as it was. -/
theorem Request.exec_heap_frame {call : Request CT} (onStream : call.OnStream id es) {e : Nat}
    (separate : es ≠ some e) : (call.exec w).1.heap[e]? = w.heap[e]? := by
  cases call with
  | eventStreamsDelete | checkpointsDeleteMany | eventStreamsUpdateSparse => rfl
  | suspend e' | start e' | stop e' | delete e' =>
      have different : e' ≠ e := fun same => separate (same ▸ onStream).symm
      simp [World.setActive, World.getElem?_modify_heap, different]
  | validateStream | eventStreamsGetMany | eventStreamsGetByID | eventStreamsUpsert
    | initEventStream => exact False.elim onStream

namespace Prog

variable {α : Type} {p next : Prog CT α} {ok : Bool}

/-- A step of a program on one stream, from two worlds with the same view of that stream, makes
the same call with the same answer and leaves the two worlds with the same view. -/
theorem OnStream.step_local (onStream : p.OnStream id es) (same : w₁.view id es = w₂.view id es)
    {w₁' : World CT} (stepped : p.step ok w₁ = some (w₁', next)) :
    ∃ w₂', p.step ok w₂ = some (w₂', next) ∧ w₁'.view id es = w₂'.view id es ∧
      next.OnStream id es := by
  cases p with
  | ret value => cases stepped
  | fail error => cases stepped
  | access call after =>
      obtain ⟨answered, viewed⟩ := call.exec_view_local onStream.1 same
      simp only [step, Option.some.injEq, Prod.mk.injEq] at stepped
      obtain ⟨rfl, rfl⟩ := stepped
      exact ⟨_, by rw [step, answered], viewed, onStream.2 _⟩
  | request call after =>
      obtain ⟨answered, viewed⟩ := call.answer_view_local onStream.1 same ok
      simp only [step, Option.some.injEq, Prod.mk.injEq] at stepped
      obtain ⟨rfl, rfl⟩ := stepped
      exact ⟨_, by rw [step, answered], viewed, onStream.2 _⟩

/-- A step of a program on one stream leaves the view of any other ID and stream object as it
was. -/
theorem OnStream.step_frame (onStream : p.OnStream id es)
    (keyed : ∀ e stream, es = some e → w.heap[e]? = some stream → stream.spec.getID = id)
    (apart : other ≠ id) (separate : ∀ e e', es = some e → es' = some e' → e ≠ e')
    {w' : World CT} (stepped : p.step ok w = some (w', next)) :
    w'.view other es' = w.view other es' := by
  cases p with
  | ret value => cases stepped
  | fail error => cases stepped
  | access call after =>
      simp only [step, Option.some.injEq, Prod.mk.injEq] at stepped
      rw [← stepped.1]
      exact call.exec_view_frame onStream.1 apart separate
  | request call after =>
      simp only [step, Option.some.injEq, Prod.mk.injEq] at stepped
      rw [← stepped.1]
      cases ok
      · rfl
      · exact call.exec_view_frame onStream.1 keyed apart separate

/-- A step of a program on one stream changes no stream object's ID. -/
theorem OnStream.step_heapIDs (onStream : p.OnStream id es) {w' : World CT}
    (stepped : p.step ok w = some (w', next)) :
    w'.heap.map (·.spec.getID) = w.heap.map (·.spec.getID) := by
  cases p with
  | ret value => cases stepped
  | fail error => cases stepped
  | access call after =>
      simp only [step, Option.some.injEq, Prod.mk.injEq] at stepped
      rw [← stepped.1]
      exact call.exec_heapIDs onStream.1
  | request call after =>
      simp only [step, Option.some.injEq, Prod.mk.injEq] at stepped
      rw [← stepped.1]
      cases ok
      · rfl
      · exact call.exec_heapIDs onStream.1

/-- A step of a program on one stream leaves every other stream object as it was. -/
theorem OnStream.step_heap_frame (onStream : p.OnStream id es) {e : Nat} (separate : es ≠ some e)
    {w' : World CT} (stepped : p.step ok w = some (w', next)) : w'.heap[e]? = w.heap[e]? := by
  cases p with
  | ret value => cases stepped
  | fail error => cases stepped
  | access call after =>
      simp only [step, Option.some.injEq, Prod.mk.injEq] at stepped
      rw [← stepped.1]
      exact call.exec_heap_frame onStream.1 separate
  | request call after =>
      simp only [step, Option.some.injEq, Prod.mk.injEq] at stepped
      rw [← stepped.1]
      cases ok
      · rfl
      · exact call.exec_heap_frame onStream.1 separate

end Prog

end

/-! ## Interleavings -/

/-- One step of one program, run alone. -/
def SoloStep {α : Type} (before after : World CT × Prog CT α) : Prop :=
  ∃ ok, before.2.step ok before.1 = some after

theorem run_of_step {α : Type} {p next : Prog CT α} {ok : Bool} {w w' : World CT}
    (stepped : p.step ok w = some (w', next)) (plan : List Bool) :
    ∃ plan', p.run plan' w = next.run plan w' := by
  cases p with
  | ret value => cases stepped
  | fail error => cases stepped
  | access call after =>
      simp only [step, Option.some.injEq, Prod.mk.injEq] at stepped
      obtain ⟨rfl, rfl⟩ := stepped
      exact ⟨plan, rfl⟩
  | request call after =>
      simp only [step, Option.some.injEq, Prod.mk.injEq] at stepped
      obtain ⟨rfl, rfl⟩ := stepped
      exact ⟨ok :: plan, rfl⟩

/-- Steps of a program alone that bring it to an end are a run of it, under the plan of its
requests' outcomes. -/
theorem run_of_soloReaches {α : Type} {start : World CT × Prog CT α} {w' : World CT}
    {last : Prog CT α} {result : Except Error α} (reached : ReflTransGen SoloStep start (w', last))
    (finished : last.result? = some result) : ∃ plan, start.2.run plan start.1 = (w', result) := by
  induction reached using ReflTransGen.head_induction_on with
  | refl =>
      refine ⟨[], ?_⟩
      cases last with
      | ret value => simp only [Prog.result?, Option.some.injEq] at finished; subst finished; rfl
      | fail error => simp only [Prog.result?, Option.some.injEq] at finished; subst finished; rfl
      | access | request => cases finished
  | head stepped _ inductionHypothesis =>
      obtain ⟨plan, ran⟩ := inductionHypothesis
      obtain ⟨ok, stepped⟩ := stepped
      obtain ⟨plan', ran'⟩ := run_of_step stepped plan
      exact ⟨plan', ran'.trans ran⟩

/-- An interleaving of calls on the streams `ids`, begun from `w`, as far as it has come: no
stream object has changed its ID, the IDs no call names are untouched, so is every stream object
no call's ID was registered to, and each thread has come as far as a run of it alone from `w`
that leaves the view of its stream as the interleaving does, having read the registry entry of
its ID or being about to. -/
structure Isolated (w : World CT) (calls : List (Operation CT)) (ids : List String)
    (state : Threads CT) : Prop where
  length : state.threads.length = calls.length
  heapIDs : state.world.heap.map (·.spec.getID) = w.heap.map (·.spec.getID)
  untouched : ∀ id, id ∉ ids →
    state.world.view id (w.streams.lookup id) = w.view id (w.streams.lookup id)
  unnamed : ∀ e, (∀ id ∈ ids, w.streams.lookup id ≠ some e) → state.world.heap[e]? = w.heap[e]?
  alone : ∀ (i : Nat) (call : Operation CT) (id : String), calls[i]? = some call →
    ids[i]? = some id → ∃ p solo,
    state.threads[i]? = some p ∧ ReflTransGen SoloStep (w, call.prog) (solo, p) ∧
      state.world.view id (w.streams.lookup id) = solo.view id (w.streams.lookup id) ∧
      (p = call.prog ∧ solo = w ∨ p.OnStream id (w.streams.lookup id))

theorem target_of_named {calls : List (Operation CT)} {ids : List String}
    (named : calls.map Operation.target = ids.map some) {i : Nat} {call : Operation CT}
    (found : calls[i]? = some call) : ∃ id, ids[i]? = some id ∧ call.target = some id := by
  have atIndex := congrArg (·[i]?) named
  simp only [List.getElem?_map, found, Option.map_some'] at atIndex
  cases named' : ids[i]? with
  | none => rw [named'] at atIndex; cases atIndex
  | some id => rw [named'] at atIndex; exact ⟨id, rfl, Option.some.inj atIndex⟩

theorem ne_of_nodup {ids : List String} (distinct : ids.Nodup) {j k : Nat} {a b : String}
    (first : ids[j]? = some a) (second : ids[k]? = some b) (different : j ≠ k) : a ≠ b :=
  fun same => different (List.getElem?_inj (List.getElem?_eq_some_iff.mp first).1 distinct
    (first.trans (same ▸ second.symm)))

section

variable {w : World CT} {calls : List (Operation CT)} {ids : List String}

theorem Isolated.begin : Isolated w calls ids ⟨w, calls.map Operation.prog⟩ where
  length := List.length_map _ _
  heapIDs := rfl
  untouched _ _ := rfl
  unnamed _ _ := rfl
  alone _ call _ found _ :=
    ⟨call.prog, w, by simp [found], ReflTransGen.refl, rfl, .inl ⟨rfl, rfl⟩⟩

/-- A stream object registered in `w` still has the ID it was registered under. -/
theorem Isolated.keyed {state : Threads CT} (holds : Isolated w calls ids state)
    (wellFormed : w.WellFormed) {id : String} {e : Nat} (registered : w.streams.lookup id = some e)
    (stream : EventStream CT) (live : state.world.heap[e]? = some stream) :
    stream.spec.getID = id := by
  obtain ⟨stream₀, live₀, keyed₀⟩ := wellFormed.keyed id e registered
  have sameID := congrArg (·[e]?) holds.heapIDs
  simp only [List.getElem?_map, live, live₀, Option.map_some', Option.some.injEq] at sameID
  exact sameID.trans keyed₀

/-- The step of the thread of a call on `id`: its run alone takes the same step, to a world with
the same view of its stream, after which it is a program on that stream; and the step either
reads the registry or is itself a call on that stream. -/
theorem step_of_progress {call : Operation CT} {id : String} (target : call.target = some id)
    {p next : Prog CT Unit} {solo world world' : World CT} {ok : Bool}
    (viewed : world.view id (w.streams.lookup id) = solo.view id (w.streams.lookup id))
    (progress : p = call.prog ∧ solo = w ∨ p.OnStream id (w.streams.lookup id))
    (stepped : p.step ok world = some (world', next)) :
    (∃ solo', SoloStep (solo, p) (solo', next) ∧
        world'.view id (w.streams.lookup id) = solo'.view id (w.streams.lookup id)) ∧
      next.OnStream id (w.streams.lookup id) ∧ (world' = world ∨ p.OnStream id (w.streams.lookup id)) := by
  rcases progress with ⟨rfl, soloBegins⟩ | onStream
  · obtain ⟨after, begins, afterOnStream⟩ := Operation.prog_onStream target
    rw [soloBegins] at viewed ⊢
    rw [begins] at stepped ⊢
    simp only [step, Access.exec, Option.some.injEq, Prod.mk.injEq] at stepped
    obtain ⟨rfl, rfl⟩ := stepped
    have entry : world.streams.lookup id = w.streams.lookup id := congrArg StreamView.entry viewed
    rw [entry]
    exact ⟨⟨w, ⟨ok, by simp [step]⟩, viewed⟩, afterOnStream _, .inl rfl⟩
  · obtain ⟨solo', soloStepped, viewed', nextOnStream⟩ := onStream.step_local viewed stepped
    exact ⟨⟨solo', ⟨ok, soloStepped⟩, viewed'⟩, nextOnStream, .inr onStream⟩

/-- Every step of any thread keeps the interleaving isolated. -/
theorem Isolated.step (wellFormed : w.WellFormed)
    (named : calls.map Operation.target = ids.map some) (distinct : ids.Nodup)
    {state state' : Threads CT} (holds : Isolated w calls ids state) (stepped : Step state state') :
    Isolated w calls ids state' := by
  cases stepped with
  | call j ok found stepped =>
  rename_i world threads thread next world'
  have inside : j < calls.length := holds.length ▸ (List.getElem?_eq_some_iff.mp found).1
  obtain ⟨id, idFound, target⟩ := target_of_named named (List.getElem?_eq_getElem inside)
  obtain ⟨p, solo, threadFound, soloRun, viewed, progress⟩ :=
    holds.alone j _ id (List.getElem?_eq_getElem inside) idFound
  rw [found, Option.some.injEq] at threadFound
  subst threadFound
  obtain ⟨⟨solo', soloStepped, viewed'⟩, nextOnStream, effect⟩ :=
    step_of_progress target viewed progress stepped
  have framed : ∀ other, other ≠ id →
      world'.view other (w.streams.lookup other) = world.view other (w.streams.lookup other) := by
    intro other apart
    rcases effect with rfl | onStream
    · rfl
    · exact onStream.step_frame (fun e stream registered live => holds.keyed wellFormed registered
        stream live) apart (fun e e' registered registered' sameStream =>
          apart (wellFormed.key_unique (sameStream ▸ registered') registered)) stepped
  have heapIDs : world'.heap.map (·.spec.getID) = w.heap.map (·.spec.getID) := by
    rcases effect with rfl | onStream
    · exact holds.heapIDs
    · exact (onStream.step_heapIDs stepped).trans holds.heapIDs
  have heapFramed : ∀ e, (∀ id' ∈ ids, w.streams.lookup id' ≠ some e) →
      world'.heap[e]? = world.heap[e]? := by
    intro e separate
    rcases effect with rfl | onStream
    · rfl
    · exact onStream.step_heap_frame (separate id (List.getElem?_mem idFound)) stepped
  refine ⟨by simpa using holds.length, heapIDs, fun other unnamed => ?_,
    fun e separate => (heapFramed e separate).trans (holds.unnamed e separate),
    fun i call id' callFound idFound' => ?_⟩
  · rw [framed other (fun same => unnamed (same ▸ List.getElem?_mem idFound))]
    exact holds.untouched other unnamed
  · by_cases same : i = j
    · subst same
      rw [List.getElem?_eq_getElem inside, Option.some.injEq] at callFound
      rw [idFound, Option.some.injEq] at idFound'
      subst callFound idFound'
      exact ⟨next, solo', by simp [List.getElem?_set_self', found], soloRun.tail soloStepped,
        viewed', .inr nextOnStream⟩
    · obtain ⟨p', solo'', threadFound', soloRun', viewedOther, progressOther⟩ :=
        holds.alone i call id' callFound idFound'
      refine ⟨p', solo'', ?_, soloRun',
        (framed id' (ne_of_nodup distinct idFound' idFound same)).trans viewedOther, progressOther⟩
      rw [List.getElem?_set_ne (Ne.symm same)]
      exact threadFound'

/-- A thread that has returned has returned what its call returns alone from `w`, leaving the
view of its stream as that run leaves it. -/
theorem Isolated.finished {state : Threads CT} (holds : Isolated w calls ids state) {i : Nat}
    {call : Operation CT} {id : String} {p : Prog CT Unit} {result : Except Error Unit}
    (callFound : calls[i]? = some call) (idFound : ids[i]? = some id)
    (threadFound : state.threads[i]? = some p) (finished : p.result? = some result) :
    ∃ plan, (call.prog.run plan w).2 = result ∧
      (call.prog.run plan w).1.view id (w.streams.lookup id) =
        state.world.view id (w.streams.lookup id) := by
  obtain ⟨p', solo, threadFound', soloRun, viewed, -⟩ := holds.alone i call id callFound idFound
  rw [threadFound, Option.some.injEq] at threadFound'
  subst threadFound'
  obtain ⟨plan, ran⟩ := run_of_soloReaches soloRun finished
  dsimp only at ran
  exact ⟨plan, by rw [ran], by rw [ran, viewed]⟩

/-- Every state an interleaving of calls on distinct streams reaches is isolated. -/
theorem Isolated.of_reaches (wellFormed : w.WellFormed)
    (named : calls.map Operation.target = ids.map some) (distinct : ids.Nodup)
    {state : Threads CT} (reached : Reaches ⟨w, calls.map Operation.prog⟩ state) :
    Isolated w calls ids state := by
  induction reached with
  | refl => exact Isolated.begin
  | tail _ last inductionHypothesis => exact inductionHypothesis.step wellFormed named distinct last

end

/-- Calls on distinct streams do not interfere. In every interleaving of `StartStream`,
`StopStream`, `ResetStream` and `DeleteStream` calls on distinct IDs, from a world whose registry
entries name their own streams, and whichever requests fail: the registry entries, rows and
checkpoints of every ID no call names are as they were, and each call that has returned has
returned what it returns when served alone from the starting world under some plan of request
outcomes, leaving the registry entry, stream, row and checkpoints of its ID as that run leaves
them. The checkpoints are those the manager's requests leave: a running stream's dispatcher,
which advances its own stream's checkpoint as it delivers, is not modelled. -/
theorem calls_on_distinct_streams_isolated {w : World CT} (wellFormed : w.WellFormed)
    {calls : List (Operation CT)} {ids : List String}
    (named : calls.map Operation.target = ids.map some) (distinct : ids.Nodup)
    {state : Threads CT} (reached : Reaches ⟨w, calls.map Operation.prog⟩ state) :
    (∀ id, id ∉ ids → state.world.view id none = w.view id none) ∧
      ∀ (i : Nat) (call : Operation CT) (id : String) (p : Prog CT Unit) (result : Except Error Unit),
        calls[i]? = some call → ids[i]? = some id → state.threads[i]? = some p →
        p.result? = some result → ∃ plan, (call.prog.run plan w).2 = result ∧
          (call.prog.run plan w).1.view id (w.streams.lookup id) =
            state.world.view id (w.streams.lookup id) := by
  have holds := Isolated.of_reaches wellFormed named distinct reached
  exact ⟨fun id unnamed => World.view_none_of_view (holds.untouched id unnamed),
    fun _ _ _ _ _ callFound idFound threadFound finished =>
    holds.finished callFound idFound threadFound finished⟩

/-- Two started streams, `"a"` and `"b"`, with a checkpoint for `"b"`, as `initialize` builds
them. -/
def twoStreamWorld : World Unit :=
  ((initializeManager 2).run [] (World.boot ⟨[⟨some "a", some .started, none, none⟩,
    ⟨some "b", some .started, none, none⟩], by decide⟩ [⟨"b", some "9"⟩])).1

theorem wellFormed_twoStreamWorld : twoStreamWorld.WellFormed :=
  World.WellFormed.run (initializeManager 2) [] (World.WellFormed.boot _ _)

/-- `StopStream("a")` and `ResetStream("b", "5")`. -/
def stopAndReset : List (Operation Unit) := [.stopStream "a", .resetStream "b" "5"]

/-- The two calls' steps interleaved: the reset reads its registry entry first, the stop
finishes while the reset runs. -/
def stopAndResetOrder : List (Nat × Bool) :=
  [(1, true), (0, true), (1, true), (0, true)] ++ List.replicate 5 (1, true)

theorem calls_on_distinct_streams_isolated_stopAndReset :
    twoStreamWorld.WellFormed ∧ stopAndReset.map Operation.target = ["a", "b"].map some ∧
    ["a", "b"].Nodup ∧
    Reaches ⟨twoStreamWorld, stopAndReset.map Operation.prog⟩
      (schedule stopAndResetOrder ⟨twoStreamWorld, stopAndReset.map Operation.prog⟩) ∧
    (∀ id, id ∉ ["a", "b"] →
      (schedule stopAndResetOrder ⟨twoStreamWorld, stopAndReset.map Operation.prog⟩).world.view
        id none = twoStreamWorld.view id none) ∧
    ∀ (i : Nat) (call : Operation Unit) (id : String) (p : Prog Unit Unit)
      (result : Except Error Unit),
      stopAndReset[i]? = some call → ["a", "b"][i]? = some id →
      (schedule stopAndResetOrder ⟨twoStreamWorld, stopAndReset.map Operation.prog⟩).threads[i]? =
        some p →
      p.result? = some result → ∃ plan, (call.prog.run plan twoStreamWorld).2 = result ∧
        (call.prog.run plan twoStreamWorld).1.view id (twoStreamWorld.streams.lookup id) =
          (schedule stopAndResetOrder ⟨twoStreamWorld, stopAndReset.map Operation.prog⟩).world.view
            id (twoStreamWorld.streams.lookup id) :=
  have named : stopAndReset.map Operation.target = ["a", "b"].map some := rfl
  ⟨wellFormed_twoStreamWorld, named, by decide, reaches_schedule _ _,
    calls_on_distinct_streams_isolated wellFormed_twoStreamWorld named (by decide) (reaches_schedule _ _)⟩

/-- What a `ResetStream` that returns nil leaves of its stream's view: the registry entry kept,
the stream object with the new initial sequence ID and running exactly when its status is
`started`, the row with the new initial sequence ID, and no checkpoint. -/
theorem resetStream_ok_view {w : World CT} {id sequenceID : String} {es : Nat}
    {stream : EventStream CT} (registered : w.streams.lookup id = some es)
    (live : w.heap[es]? = some stream) (plan : List Bool)
    (succeeded : ((resetStream id sequenceID).run plan w).2 = .ok ()) :
    ((resetStream id sequenceID).run plan w).1.view id (some es) =
      ⟨some es, some ⟨{ stream.spec with initialSequenceID := some sequenceID },
        decide (stream.spec.status = some .started)⟩,
        (w.eventStreams.find? id).map ({ · with initialSequenceID := some sequenceID }), []⟩ := by
  refine @run_of_wp CT Unit _ (fun reset result _ => result = .ok () →
    reset.view id (some es) = ⟨some es, some ⟨{ stream.spec with initialSequenceID := some sequenceID },
      decide (stream.spec.status = some .started)⟩,
      (w.eventStreams.find? id).map ({ · with initialSequenceID := some sequenceID }), []⟩) w ?_
    plan succeeded
  rw [resetStream_wp, registered]
  simp only [status?_of_getElem? live]
  split
  case isTrue started =>
    refine ⟨nofun, nofun, nofun, nofun, fun _ => ?_⟩
    simp [World.view, registered, live, started, List.filter_filter]
  case isFalse notStarted =>
    refine ⟨nofun, nofun, nofun, fun _ => ?_⟩
    simp [World.view, registered, live, notStarted, List.filter_filter]

/-- A `ResetStream` that has returned nil, in any interleaving with calls on other streams, has
left its stream registered with the new initial sequence ID and running exactly when its status
is `started`, its row with the new initial sequence ID, and no checkpoint for its ID: no call on
another stream undoes any of it. The checkpoints are those the manager's requests leave: once
the stream runs again, its dispatcher may write a new checkpoint, which is not modelled. -/
theorem resetStream_isolated_postcondition {w : World CT} (wellFormed : w.WellFormed)
    {calls : List (Operation CT)} {ids : List String}
    (named : calls.map Operation.target = ids.map some) (distinct : ids.Nodup)
    {state : Threads CT} (reached : Reaches ⟨w, calls.map Operation.prog⟩ state) {i : Nat}
    {id sequenceID : String} {p : Prog CT Unit} {es : Nat} {stream : EventStream CT}
    (called : calls[i]? = some (.resetStream id sequenceID))
    (threadFound : state.threads[i]? = some p) (succeeded : p.result? = some (.ok ()))
    (registered : w.streams.lookup id = some es) (live : w.heap[es]? = some stream) :
    state.world.registered id = some ⟨{ stream.spec with initialSequenceID := some sequenceID },
        decide (stream.spec.status = some .started)⟩ ∧
      state.world.eventStreams.find? id =
        (w.eventStreams.find? id).map ({ · with initialSequenceID := some sequenceID }) ∧
      state.world.checkpoints.filter (·.id = id) = [] := by
  obtain ⟨id', idFound, target⟩ := target_of_named named called
  cases target
  obtain ⟨plan, ran, viewed⟩ :=
    (Isolated.of_reaches wellFormed named distinct reached).finished called idFound threadFound succeeded
  rw [registered, show (Operation.resetStream id sequenceID).prog = resetStream id sequenceID from rfl,
    resetStream_ok_view registered live plan ran] at viewed
  simp only [World.view, StreamView.mk.injEq, Option.some_bind] at viewed
  obtain ⟨entry, moved, row, checkpoints⟩ := viewed
  exact ⟨by rw [World.registered, ← entry, Option.some_bind, ← moved], row.symm, checkpoints.symm⟩

theorem resetStream_isolated_postcondition_stopAndReset :
    twoStreamWorld.WellFormed ∧ stopAndReset.map Operation.target = ["a", "b"].map some ∧
    ["a", "b"].Nodup ∧
    Reaches ⟨twoStreamWorld, stopAndReset.map Operation.prog⟩
      (schedule stopAndResetOrder ⟨twoStreamWorld, stopAndReset.map Operation.prog⟩) ∧
    stopAndReset[1]? = some (.resetStream "b" "5") ∧
    (schedule stopAndResetOrder ⟨twoStreamWorld, stopAndReset.map Operation.prog⟩).threads[1]? =
      some (.ret ()) ∧
    (Prog.ret () : Prog Unit Unit).result? = some (.ok ()) ∧
    twoStreamWorld.streams.lookup "b" = some 1 ∧
    twoStreamWorld.heap[1]? = some ⟨⟨some "b", some .started, none, none⟩, true⟩ ∧
    (schedule stopAndResetOrder ⟨twoStreamWorld, stopAndReset.map Operation.prog⟩).world.registered
        "b" = some ⟨⟨some "b", some .started, some "5", none⟩, true⟩ ∧
      (schedule stopAndResetOrder ⟨twoStreamWorld, stopAndReset.map Operation.prog⟩).world.eventStreams.find?
        "b" = (twoStreamWorld.eventStreams.find? "b").map ({ · with initialSequenceID := some "5" }) ∧
      (schedule stopAndResetOrder ⟨twoStreamWorld, stopAndReset.map Operation.prog⟩).world.checkpoints.filter
        (·.id = "b") = [] :=
  have named : stopAndReset.map Operation.target = ["a", "b"].map some := rfl
  have finished : (schedule stopAndResetOrder
      ⟨twoStreamWorld, stopAndReset.map Operation.prog⟩).threads[1]? = some (.ret ()) := rfl
  have called : stopAndReset[1]? = some (.resetStream "b" "5") := rfl
  have registered : twoStreamWorld.streams.lookup "b" = some 1 := rfl
  have live : twoStreamWorld.heap[1]? = some ⟨⟨some "b", some .started, none, none⟩, true⟩ := rfl
  ⟨wellFormed_twoStreamWorld, named, by decide, reaches_schedule _ _, called, finished, rfl, registered, live,
    resetStream_isolated_postcondition wellFormed_twoStreamWorld named (by decide) (reaches_schedule _ _) called
      finished rfl registered live⟩

end FireflyCommon.EventStreams
