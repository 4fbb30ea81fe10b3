import FireflyCommon.EventStreams.Interleaving

set_option autoImplicit false

/-!
# Running streams are registered

`ActiveRegistered` says that every stream whose tasks are running is the registry entry for its
ID, so that `Close`, which suspends the registered streams, reaches every running one. Served one
after another, every call keeps it, whichever of its requests fail: `reInit` suspends the stream
it replaces before it registers the new one, and `DeleteStream` ends the stream before it removes
the entry. Calls on distinct IDs keep it in any interleaving (`Concurrency`); calls racing on
one ID do not: two upserts of one ID can each start a stream, and only the one registered last is
the entry.
-/

namespace FireflyCommon.EventStreams

open Prog

variable {CT : Type}

namespace World

/-- Every stream whose tasks are running is the registry entry for its ID. -/
def ActiveRegistered (w : World CT) : Prop :=
  ∀ es stream, w.heap[es]? = some stream → stream.active = true →
    w.streams.lookup stream.spec.getID = some es

namespace ActiveRegistered

variable {w : World CT}

theorem boot (eventStreams : SpecTable CT) (checkpoints : List EventStreamCheckpoint) :
    (World.boot eventStreams checkpoints).ActiveRegistered := fun es stream live => by
  simp [World.boot] at live

theorem single (stream : EventStream CT) (checkpoints : List EventStreamCheckpoint) :
    (World.single stream checkpoints).ActiveRegistered := fun es running live _ => by
  cases es with
  | zero =>
      simp only [World.single, List.getElem?_cons_zero, Option.some.injEq] at live
      simp [World.single, live, -AList.insert_empty]
  | succ es => simp [World.single] at live

/-- A write to one stream that keeps its ID and starts no task keeps the invariant. -/
theorem of_modify {w' : World CT} (holds : w.ActiveRegistered) (streams : w'.streams = w.streams)
    {es : Nat} {f : EventStream CT → EventStream CT} (heap : w'.heap = w.heap.modify f es)
    (keepsID : ∀ stream, (f stream).spec.getID = stream.spec.getID)
    (startsNone : ∀ stream, (f stream).active = true → stream.active = true) :
    w'.ActiveRegistered := by
  intro other stream live active
  rw [heap, getElem?_modify_heap] at live
  rw [streams]
  split at live
  case isTrue same =>
    subst same
    obtain ⟨original, found, rfl⟩ := Option.map_eq_some'.mp live
    rw [keepsID]
    exact holds es original found (startsNone _ active)
  case isFalse => exact holds other stream live active

theorem setActive_false (holds : w.ActiveRegistered) (es : Nat) :
    (w.setActive es false).ActiveRegistered :=
  holds.of_modify rfl rfl (fun _ => rfl) fun _ => by simp

theorem setInitialSequenceID (holds : w.ActiveRegistered) (es : Nat) (sequenceID : String) :
    (w.setInitialSequenceID es sequenceID).ActiveRegistered :=
  holds.of_modify rfl rfl (fun _ => rfl) fun _ => id

theorem recordStatus (holds : w.ActiveRegistered) (es : Nat) (status : EventStreamStatus) :
    (w.recordStatus es status).ActiveRegistered :=
  holds.of_modify rfl rfl (fun _ => rfl) fun _ => by simp

/-- Starting the stream registered under `id`. -/
theorem setActive_registered (holds : w.ActiveRegistered) (wellFormed : w.WellFormed)
    {id : String} {es : Nat} (registered : w.streams.lookup id = some es) :
    (w.setActive es true).ActiveRegistered := by
  obtain ⟨stream, live, keyed⟩ := wellFormed.keyed id es registered
  intro other running found active
  rw [getElem?_setActive] at found
  split at found
  case isTrue same =>
    subst same
    simp only [live, Option.map_some', Option.some.injEq] at found
    subst found
    show w.streams.lookup stream.spec.getID = some es
    rw [keyed, registered]
  case isFalse => exact holds other running found active

/-- Removing the entry of an ID whose registered stream is not running. -/
theorem removeStream (holds : w.ActiveRegistered) {id : String}
    (idle : ∀ es running, w.streams.lookup id = some es → w.heap[es]? = some running →
      running.active = false) :
    (w.removeStream id).ActiveRegistered := by
  intro es running live active
  have different : running.spec.getID ≠ id := fun same => by
    simp [idle es running (same ▸ holds es running live active) live] at active
  simpa [World.removeStream, AList.lookup_erase_ne different] using holds es running live active

/-- `reInit` once the stream it replaces is suspended: build and register the stream of `spec`,
which `initEventStream` may already have started, and start it. The new stream may run before it
is registered; once it is, it is the entry for its ID. -/
theorem register (holds : w.ActiveRegistered) (wellFormed : w.WellFormed) (spec : EventStreamSpec CT)
    (idle : ∀ other running, w.streams.lookup spec.getID = some other →
      w.heap[other]? = some running → running.active = false) :
    ((w.newEventStream spec).1.addStream w.heap.length).ActiveRegistered ∧
      (((w.newEventStream spec).1.addStream w.heap.length).setActive w.heap.length true).ActiveRegistered := by
  have live := w.getElem?_newEventStream_length spec
  have registered :
      ((w.newEventStream spec).1.addStream w.heap.length).streams.lookup spec.getID =
        some w.heap.length := by
    simp [streams_addStream live]
  have added : ((w.newEventStream spec).1.addStream w.heap.length).ActiveRegistered := by
    intro es stream found active
    rw [heap_addStream, getElem?_newEventStream] at found
    split at found
    case isTrue fresh =>
      simp only [Option.some.injEq] at found
      rw [← found, fresh]
      exact registered
    case isFalse =>
      have before := holds es stream found active
      have different : stream.spec.getID ≠ spec.getID := fun same => by
        simp [idle es stream (same ▸ before) found] at active
      rw [streams_addStream live, AList.lookup_insert_ne different]
      exact before
  exact ⟨added, added.setActive_registered ((wellFormed.newEventStream spec).addStream _) registered⟩

end ActiveRegistered

end World

open World

theorem reInit_wp_activeRegistered (spec : EventStreamSpec CT) (existing : Option Nat)
    {w : World CT} (holds : w.ActiveRegistered) (wellFormed : w.WellFormed)
    (replaced : w.streams.lookup spec.getID = existing) :
    (reInit spec existing).wp (fun w _ _ => w.ActiveRegistered) w := by
  rw [reInit_wp]
  cases existing with
  | none =>
      have built := holds.register wellFormed spec fun other _ found => by simp [replaced] at found
      exact ⟨holds, by split; exacts [built.2, built.1]⟩
  | some old =>
      have suspended := holds.setActive_false old
      have built := suspended.register (wellFormed.setActive old false) spec
        fun other running found live => by
          rw [streams_setActive, replaced, Option.some.injEq] at found
          subst found
          simp only [getElem?_setActive, if_true, Option.map_eq_some'] at live
          obtain ⟨_, _, rfl⟩ := live
          rfl
      exact ⟨holds, suspended, by split; exacts [built.2, built.1]⟩

theorem upsertStream_wp_activeRegistered (esSpec : EventStreamSpec CT) {w : World CT}
    (holds : w.ActiveRegistered) (wellFormed : w.WellFormed) :
    (Operation.upsertStream esSpec).prog.wp (fun w _ _ => w.ActiveRegistered) w := by
  simp only [Operation.prog, bind_eq, wp_bind, upsertStream_wp, upsertSpec_wp]
  have replaced := w.lookup_upsertTarget esSpec
  generalize w.upsertTarget esSpec = target at replaced ⊢
  obtain ⟨spec, existing⟩ := target
  split
  · exact holds
  · refine ⟨holds, holds, wp_mono (reInit_wp_activeRegistered spec existing
      (holds : (w.upsertSpec spec).1.ActiveRegistered) ⟨wellFormed.keyed⟩ replaced)
      fun w result _ holds' => ?_⟩
    cases result <;> exact holds'

/-- Served alone, every operation keeps every running stream registered, whichever of its
requests fail. -/
theorem Operation.wp_activeRegistered (operation : Operation CT) {w : World CT}
    (holds : w.ActiveRegistered) (wellFormed : w.WellFormed) :
    operation.prog.wp (fun w _ _ => w.ActiveRegistered) w := by
  cases operation with
  | upsertStream esSpec => exact upsertStream_wp_activeRegistered esSpec holds wellFormed
  | startStream id =>
      rw [Operation.prog, startStream_wp]
      split
      case h_1 => exact holds
      case h_2 es registered => exact ⟨holds, holds.setActive_registered wellFormed registered⟩
  | stopStream id =>
      rw [Operation.prog, stopStream_wp]
      split
      case h_1 => exact holds
      case h_2 es _ => exact ⟨holds, holds.recordStatus es .stopped⟩
  | deleteStream id =>
      rw [Operation.prog, deleteStream_wp]
      split
      case h_1 => exact holds
      case h_2 es registered =>
        have deleted := holds.recordStatus es .deleted
        refine ⟨holds, deleted, ActiveRegistered.removeStream deleted fun other running found live => ?_⟩
        rw [recordStatus_streams, registered, Option.some.injEq] at found
        subst found
        simp only [recordStatus_heap, getElem?_modify_heap, if_true, Option.map_eq_some'] at live
        obtain ⟨_, _, rfl⟩ := live
        rfl
  | resetStream id sequenceID =>
      rw [Operation.prog, resetStream_wp]
      split
      case h_1 => exact holds
      case h_2 es registered =>
        have suspended := holds.setActive_false es
        have cleared : (((w.setActive es false).deleteCheckpoints id).setInitialSequenceID es
            sequenceID).ActiveRegistered := suspended.setInitialSequenceID es sequenceID
        have reset : ((((w.setActive es false).deleteCheckpoints id).setInitialSequenceID es
            sequenceID).updateSparse (.initialSequenceUpdate id sequenceID)).ActiveRegistered := cleared
        have wellFormed' : ((((w.setActive es false).deleteCheckpoints id).setInitialSequenceID es
            sequenceID).updateSparse (.initialSequenceUpdate id sequenceID)).WellFormed :=
          ⟨(WellFormed.exec_access (.setInitialSequenceID es sequenceID)
            (wellFormed.setActive es false)).keyed⟩
        refine ⟨holds, suspended, cleared, ?_⟩
        split
        · exact ⟨reset, reset.setActive_registered wellFormed' (by simpa using registered)⟩
        · exact reset

theorem ActiveRegistered.serve (calls : List (Operation CT × List Bool)) {w : World CT}
    (holds : w.ActiveRegistered) (wellFormed : w.WellFormed) : (serve calls w).1.ActiveRegistered := by
  induction calls generalizing w with
  | nil => exact holds
  | cons call rest inductionHypothesis =>
      exact inductionHypothesis (run_of_wp (call.1.wp_activeRegistered holds wellFormed) call.2)
        (wellFormed.run _ _)

/-- `Close`'s loop asks to suspend every stream it is given, whichever requests fail. -/
theorem requests_suspendAll (streams : List Nat) (plan : List Bool) (w : World CT) :
    (suspendAll streams).requests plan w = streams.map .suspend := by
  induction streams generalizing plan w with
  | nil => rfl
  | cons es streams inductionHypothesis =>
      cases plan with
      | nil => exact congrArg _ (inductionHypothesis [] _)
      | cons ok plan => cases ok <;> exact congrArg _ (inductionHypothesis plan _)

theorem requests_close (plan : List Bool) (w : World CT) :
    close.requests plan w = (w.streams.entries.map Sigma.snd).map .suspend :=
  requests_suspendAll _ plan w

end FireflyCommon.EventStreams
