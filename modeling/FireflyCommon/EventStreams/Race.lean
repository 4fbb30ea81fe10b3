import FireflyCommon.EventStreams.Interleaving
import FireflyCommon.EventStreams.Idempotence
import FireflyCommon.EventStreams.Service

set_option autoImplicit false

/-!
# Calls racing on one ID

`UpsertStream` looks up the stream it replaces and persists its spec in separate calls, and
builds and registers the new stream only after both, so two upserts for one ID can interleave:
the first persists its spec, the second runs to completion, and the first then builds and
registers its stream. From any world and for any two specs the code accepts, both calls return
nil, the table holds the second spec while the registry holds the stream of the first, and the
stream the second built stays in the heap, running when its spec says `started`, with no registry
entry left to reach it (`upserts_on_one_id_race`).

`DeleteStream` removes its registry entry last, after deleting the row, so an upsert for the same
ID that runs in between has its row kept and its registry entry removed
(`deleteStream_upsertStream_race`). No order of the two calls, as steps of the service, explains
that outcome (`deleteStream_upsertStream_not_linearizable`): calls on distinct IDs linearize, calls
on one ID do not.
-/

namespace FireflyCommon.EventStreams

open Prog World Relation

variable {CT : Type}

/-- `reInit` when every request succeeds: the replaced stream suspended, and the stream of `spec`
built, registered and, when its status is `started`, running. -/
def World.reInitialized (w : World CT) (spec : EventStreamSpec CT) : Option Nat → World CT
  | none => w.rebuilt spec
  | some old => (w.setActive old false).rebuilt spec

namespace World

variable {w : World CT}

theorem streams_rebuilt (spec : EventStreamSpec CT) :
    (w.rebuilt spec).streams = w.streams.insert spec.getID w.heap.length := by
  unfold rebuilt
  split <;> simp [streams_addStream (w.getElem?_newEventStream_length spec)]

theorem length_rebuilt (spec : EventStreamSpec CT) :
    (w.rebuilt spec).heap.length = w.heap.length + 1 := by
  unfold rebuilt
  split <;> simp

theorem getElem?_rebuilt (spec : EventStreamSpec CT) (es : Nat) :
    (w.rebuilt spec).heap[es]? =
      if es = w.heap.length then some ⟨spec, spec.status = some .started⟩ else w.heap[es]? := by
  unfold rebuilt
  by_cases fresh : es = w.heap.length
  · subst fresh
    split
    · rw [getElem?_setActive, if_pos rfl, heap_addStream, w.getElem?_newEventStream_length]
      simp [*]
    · rw [heap_addStream, w.getElem?_newEventStream_length]
      simp [*]
  · split <;> simp [getElem?_newEventStream, fresh, Ne.symm fresh]

@[simp]
theorem eventStreams_reInitialized (spec : EventStreamSpec CT) (existing : Option Nat) :
    (w.reInitialized spec existing).eventStreams = w.eventStreams := by
  cases existing <;> simp [reInitialized]

theorem streams_reInitialized (spec : EventStreamSpec CT) (existing : Option Nat) :
    (w.reInitialized spec existing).streams = w.streams.insert spec.getID w.heap.length := by
  cases existing <;> simp [reInitialized, streams_rebuilt]

theorem length_reInitialized (spec : EventStreamSpec CT) (existing : Option Nat) :
    (w.reInitialized spec existing).heap.length = w.heap.length + 1 := by
  cases existing <;> simp [reInitialized, length_rebuilt]

theorem getElem?_reInitialized_length (spec : EventStreamSpec CT) (existing : Option Nat) :
    (w.reInitialized spec existing).heap[w.heap.length]? =
      some ⟨spec, spec.status = some .started⟩ := by
  cases existing <;> simp [reInitialized, getElem?_rebuilt]

/-- The streams that were there before keep their state, the replaced one apart. -/
theorem getElem?_reInitialized_of_lt (spec : EventStreamSpec CT) {existing : Option Nat} {es : Nat}
    (lt : es < w.heap.length) (other : existing ≠ some es) :
    (w.reInitialized spec existing).heap[es]? = w.heap[es]? := by
  cases existing with
  | none => simp [reInitialized, getElem?_rebuilt, Nat.ne_of_lt lt]
  | some old =>
      have different : old ≠ es := fun same => other (congrArg some same)
      simp [reInitialized, getElem?_rebuilt, Nat.ne_of_lt lt, different]

/-- A stream that the entry of its own ID does not name is named by no entry. -/
theorem WellFormed.lookup_ne (wellFormed : w.WellFormed) {es : Nat} {stream : EventStream CT}
    (live : w.heap[es]? = some stream) (elsewhere : w.streams.lookup stream.spec.getID ≠ some es)
    (other : String) : w.streams.lookup other ≠ some es := fun registered => by
  obtain ⟨stream', live', keyed⟩ := wellFormed.keyed other es registered
  rw [live, Option.some.injEq] at live'
  subst live'
  exact elsewhere (keyed ▸ registered)

end World

theorem status_defaultStatus (esSpec : EventStreamSpec CT) :
    (defaultStatus esSpec).status = some (esSpec.status.getD .started) := by
  rcases esSpec with ⟨_, _ | _, _, _⟩ <;> rfl

/-! ## Runs in which every request succeeds -/

theorem run_nil_reInit (spec : EventStreamSpec CT) (existing : Option Nat) (w : World CT) :
    (reInit spec existing).run [] w = (w.reInitialized spec existing, .ok ()) := by
  cases existing <;>
    simp [reInit, run, addStream, ask, perform, World.reInitialized, World.rebuilt,
      Request.answer] <;> split <;> simp [run]

theorem run_nil_upsertSpec (esSpec : EventStreamSpec CT) (w : World CT)
    (accepted : esSpec.status ≠ some .deleted) :
    (upsertSpec esSpec).run [] w =
      ((w.upsertSpec (w.upsertTarget esSpec).1).1, .ok ((w.upsertTarget esSpec).1,
        (w.upsertTarget esSpec).2, (w.upsertSpec (w.upsertTarget esSpec).1).2)) := by
  have kept : esSpec.status.getD .started = .started ∨ esSpec.status.getD .started = .stopped := by
    rcases status : esSpec.status with _ | ⟨_ | _ | _⟩ <;> simp_all
  unfold upsertSpec assignID World.upsertTarget
  split <;> rcases kept with status | status <;>
    simp [run, getStream, ask, perform, Request.answer, status_defaultStatus, status]

/-- `UpsertStream`'s call is its persisted write followed by what rebuilds the stream. -/
theorem upsertStream_prog_bind (esSpec : EventStreamSpec CT) :
    ∃ rest, (Operation.upsertStream esSpec).prog = (upsertSpec esSpec).attempt.bind rest ∧
      ∀ spec existing isNew (w : World CT), (rest (.ok (spec, existing, isNew))).run [] w =
        (w.reInitialized spec existing, .ok ()) := by
  refine ⟨_, by simp only [Operation.prog, upsertStream, bind_eq, Prog.bind_assoc]; rfl, ?_⟩
  intro spec existing isNew w
  simp only [run_nil_bind, run_attempt, run_nil_reInit]
  rfl

/-- With every request succeeding, `UpsertStream` of a spec whose status is not `deleted` returns
nil. -/
theorem run_nil_upsertStream (esSpec : EventStreamSpec CT) (w : World CT)
    (accepted : esSpec.status ≠ some .deleted) :
    (Operation.upsertStream esSpec).prog.run [] w =
      ((w.upsertSpec (w.upsertTarget esSpec).1).1.reInitialized (w.upsertTarget esSpec).1
        (w.upsertTarget esSpec).2, .ok ()) := by
  obtain ⟨rest, shape, finish⟩ := upsertStream_prog_bind esSpec
  rw [shape, run_nil_bind, run_attempt, run_nil_upsertSpec esSpec w accepted]
  exact finish _ _ _ _

/-! ## The race -/

theorem World.upsertTarget_of_named {w : World CT} {esSpec : EventStreamSpec CT} {id : String}
    (named : esSpec.id = some id) (nonEmpty : id.length ≠ 0) :
    w.upsertTarget esSpec = (defaultStatus esSpec, w.streams.lookup id) := by
  have keyed : esSpec.getID = id := EventStreamSpec.getID_of_id named
  rw [World.upsertTarget, if_neg (by simp [named, keyed, nonEmpty]), keyed]

section Racing

variable {first second : EventStreamSpec CT} {id : String}
  (firstNamed : first.id = some id) (secondNamed : second.id = some id) (nonEmpty : id.length ≠ 0)
  (firstAccepted : first.status ≠ some .deleted) (secondAccepted : second.status ≠ some .deleted)
include firstNamed secondNamed nonEmpty firstAccepted secondAccepted

/-- The interleaving of the race: the first upsert persists its spec, the second runs to
completion, and the first then suspends the stream it looked up and builds and registers its own. -/
theorem reaches_racing_upserts (w : World CT) :
    Reaches ⟨w, [(Operation.upsertStream first).prog, (Operation.upsertStream second).prog]⟩
      ⟨(((w.upsertSpec (defaultStatus first)).1.upsertSpec (defaultStatus second)).1.reInitialized
          (defaultStatus second) (w.streams.lookup id)).reInitialized (defaultStatus first)
          (w.streams.lookup id), [.ret (), .ret ()]⟩ := by
  obtain ⟨rest, shape, finish⟩ := upsertStream_prog_bind first
  let resume := rest (.ok (defaultStatus first, w.streams.lookup id,
    (w.upsertSpec (defaultStatus first)).2))
  have firstPersists := reaches_bind_run (upsertSpec first).attempt rest [] w
    [(Operation.upsertStream first).prog, (Operation.upsertStream second).prog] 0 (by simp)
  rw [run_attempt, run_nil_upsertSpec first w firstAccepted,
    World.upsertTarget_of_named firstNamed nonEmpty] at firstPersists
  have secondRuns := reaches_run_at (Operation.upsertStream second).prog []
    (w.upsertSpec (defaultStatus first)).1 [resume, (Operation.upsertStream second).prog] 1
    (by simp)
  rw [run_nil_upsertStream second _ secondAccepted,
    World.upsertTarget_of_named secondNamed nonEmpty] at secondRuns
  have firstResumes := reaches_run_at resume []
    (((w.upsertSpec (defaultStatus first)).1.upsertSpec (defaultStatus second)).1.reInitialized
      (defaultStatus second) (w.streams.lookup id)) [resume, .ret ()] 0 (by simp)
  rw [finish] at firstResumes
  rw [shape]
  exact firstPersists.trans (secondRuns.trans firstResumes)

/-- Two upserts for one ID, from any world whose registry entries name their own streams: some
interleaving has both return nil, the table ending with the second spec, the registry with the
stream of the first, and the stream built for the second in the heap with no entry naming it. -/
theorem upserts_on_one_id_race {w : World CT} (wellFormed : w.WellFormed) :
    ∃ state, Reaches ⟨w, [(Operation.upsertStream first).prog, (Operation.upsertStream second).prog]⟩
        state ∧
      state.threads.map Prog.result? = [some (.ok ()), some (.ok ())] ∧
      state.world.eventStreams.find? id = some (defaultStatus second) ∧
      state.world.registered id =
        some ⟨defaultStatus first, (defaultStatus first).status = some .started⟩ ∧
      ∃ es, state.world.heap[es]? =
          some ⟨defaultStatus second, (defaultStatus second).status = some .started⟩ ∧
        ∀ other, state.world.streams.lookup other ≠ some es := by
  let served := ((w.upsertSpec (defaultStatus first)).1.upsertSpec (defaultStatus second)).1
    |>.reInitialized (defaultStatus second) (w.streams.lookup id)
  let resumed := served.reInitialized (defaultStatus first) (w.streams.lookup id)
  have raced : Reaches
      ⟨w, [(Operation.upsertStream first).prog, (Operation.upsertStream second).prog]⟩
      ⟨resumed, [.ret (), .ret ()]⟩ :=
    reaches_racing_upserts firstNamed secondNamed nonEmpty firstAccepted secondAccepted w
  have firstKey : (defaultStatus first).getID = id := by simp [firstNamed]
  have secondKey : (defaultStatus second).getID = id := by simp [secondNamed]
  have fresh : served.heap.length = w.heap.length + 1 := by
    simp [served, World.length_reInitialized]
  have lookup : resumed.streams.lookup id = some (w.heap.length + 1) := by
    simp [resumed, World.streams_reInitialized, firstKey, fresh]
  have below : w.streams.lookup id ≠ some w.heap.length := fun registered => by
    obtain ⟨_, live, -⟩ := wellFormed.keyed id _ registered
    exact Nat.lt_irrefl _ (List.getElem?_eq_some_iff.mp live).1
  have orphan : resumed.heap[w.heap.length]? =
      some ⟨defaultStatus second, (defaultStatus second).status = some .started⟩ := by
    rw [World.getElem?_reInitialized_of_lt _ (by omega) below]
    exact World.getElem?_reInitialized_length _ _
  refine ⟨_, raced, rfl, ?_, ?_, w.heap.length, orphan,
    (WellFormed.reaches raced wellFormed).lookup_ne orphan ?_⟩
  · simp [resumed, served, World.find?_upsertSpec, secondKey]
  · rw [World.registered, lookup, Option.some_bind, ← fresh]
    exact World.getElem?_reInitialized_length _ _
  · rw [secondKey, lookup]
    simp

end Racing

theorem upserts_on_one_id_race_oneStream :
    oneStreamWorld.WellFormed ∧ firstSpec.id = some "a" ∧ secondSpec.id = some "a" ∧
      "a".length ≠ 0 ∧ firstSpec.status ≠ some .deleted ∧ secondSpec.status ≠ some .deleted ∧
      ∃ state, Reaches ⟨oneStreamWorld, [(Operation.upsertStream firstSpec).prog,
          (Operation.upsertStream secondSpec).prog]⟩ state ∧
        state.threads.map Prog.result? = [some (.ok ()), some (.ok ())] ∧
        state.world.eventStreams.find? "a" = some (defaultStatus secondSpec) ∧
        state.world.registered "a" =
          some ⟨defaultStatus firstSpec, (defaultStatus firstSpec).status = some .started⟩ ∧
        ∃ es, state.world.heap[es]? =
            some ⟨defaultStatus secondSpec, (defaultStatus secondSpec).status = some .started⟩ ∧
          ∀ other, state.world.streams.lookup other ≠ some es :=
  ⟨WellFormed.single _ _, rfl, rfl, by decide, by decide, by decide,
    upserts_on_one_id_race rfl rfl (by decide) (by decide) (by decide) (WellFormed.single _ _)⟩

/-- `DeleteStream` of a registered ID records its stream deleted and deletes its row, leaving the
removal of the registry entry. -/
theorem reaches_deleteStream_persisted {w : World CT} {id : String} {es : Nat}
    (registered : w.streams.lookup id = some es) (threads : List (Prog CT Unit)) (index : Nat)
    (found : index < threads.length) :
    Reaches ⟨w, threads.set index (Operation.deleteStream id).prog⟩
      ⟨(w.recordStatus es .deleted).deleteSpec id, threads.set index (removeStream id)⟩ := by
  have reached := reaches_schedule [(index, true), (index, true), (index, true)]
    ⟨w, threads.set index (Operation.deleteStream id).prog⟩
  simpa [schedule, List.getElem?_set_self found, Operation.prog, deleteStream, getStream, ask,
    perform, Prog.step, Request.answer, registered, List.set_set] using reached

section DeleteRacing

variable {w : World CT} {id : String} {es : Nat} {esSpec : EventStreamSpec CT}
  (registered : w.streams.lookup id = some es) (named : esSpec.id = some id)
  (nonEmpty : id.length ≠ 0) (accepted : esSpec.status ≠ some .deleted)
include registered named nonEmpty accepted

/-- The interleaving: the delete records the stream deleted and deletes its row, the upsert runs to
completion, and the delete then removes the registry entry the upsert made. -/
theorem reaches_delete_upsert_race :
    Reaches ⟨w, [(Operation.deleteStream id).prog, (Operation.upsertStream esSpec).prog]⟩
      ⟨((((w.recordStatus es .deleted).deleteSpec id).upsertSpec (defaultStatus esSpec)).1
          |>.reInitialized (defaultStatus esSpec) (some es)).removeStream id, [.ret (), .ret ()]⟩ := by
  have deletes := reaches_deleteStream_persisted registered
    [(Operation.deleteStream id).prog, (Operation.upsertStream esSpec).prog] 0 (by simp)
  have upserts := reaches_run_at (Operation.upsertStream esSpec).prog []
    ((w.recordStatus es .deleted).deleteSpec id)
    [removeStream id, (Operation.upsertStream esSpec).prog] 1 (by simp)
  rw [run_nil_upsertStream esSpec _ accepted, World.upsertTarget_of_named named nonEmpty] at upserts
  simp only [World.deleteSpec_streams, World.recordStatus_streams, registered] at upserts
  have removes := reaches_run_at (removeStream id) []
    ((((w.recordStatus es .deleted).deleteSpec id).upsertSpec (defaultStatus esSpec)).1
      |>.reInitialized (defaultStatus esSpec) (some es)) [removeStream id, .ret ()] 0 (by simp)
  exact deletes.trans (upserts.trans removes)

/-- A delete and an upsert on one registered ID, from any world whose registry entries name their
own streams: some interleaving has both return nil, the upserted row persisted with no stream
registered under its ID, and the stream built for it in the heap with no entry naming it. -/
theorem deleteStream_upsertStream_race (wellFormed : w.WellFormed) :
    ∃ state, Reaches ⟨w, [(Operation.deleteStream id).prog, (Operation.upsertStream esSpec).prog]⟩
        state ∧
      state.threads.map Prog.result? = [some (.ok ()), some (.ok ())] ∧
      state.world.eventStreams.find? id = some (defaultStatus esSpec) ∧
      state.world.registered id = none ∧
      ∃ es', state.world.heap[es']? =
          some ⟨defaultStatus esSpec, (defaultStatus esSpec).status = some .started⟩ ∧
        ∀ other, state.world.streams.lookup other ≠ some es' := by
  let upserted := ((w.recordStatus es .deleted).deleteSpec id).upsertSpec (defaultStatus esSpec)
    |>.1.reInitialized (defaultStatus esSpec) (some es)
  have raced : Reaches
      ⟨w, [(Operation.deleteStream id).prog, (Operation.upsertStream esSpec).prog]⟩
      ⟨upserted.removeStream id, [.ret (), .ret ()]⟩ :=
    reaches_delete_upsert_race registered named nonEmpty accepted
  have key : (defaultStatus esSpec).getID = id := by simp [named]
  have removed : (upserted.removeStream id).streams.lookup id = none := by
    simp [World.removeStream]
  have orphan : (upserted.removeStream id).heap[w.heap.length]? =
      some ⟨defaultStatus esSpec, (defaultStatus esSpec).status = some .started⟩ := by
    have length : ((w.recordStatus es .deleted).deleteSpec id).heap.length = w.heap.length := by
      simp
    rw [← length]
    exact World.getElem?_reInitialized_length _ _
  refine ⟨_, raced, rfl, ?_, ?_, w.heap.length, orphan,
    (WellFormed.reaches raced wellFormed).lookup_ne orphan ?_⟩
  · simp [upserted, World.removeStream, World.find?_upsertSpec, key]
  · rw [World.registered, removed, Option.none_bind]
  · rw [key, removed]
    nofun

end DeleteRacing

theorem deleteStream_upsertStream_race_oneStream :
    oneStreamWorld.streams.lookup "a" = some 0 ∧ firstSpec.id = some "a" ∧ "a".length ≠ 0 ∧
      firstSpec.status ≠ some .deleted ∧ oneStreamWorld.WellFormed ∧
      ∃ state, Reaches ⟨oneStreamWorld, [(Operation.deleteStream "a").prog,
          (Operation.upsertStream firstSpec).prog]⟩ state ∧
        state.threads.map Prog.result? = [some (.ok ()), some (.ok ())] ∧
        state.world.eventStreams.find? "a" = some (defaultStatus firstSpec) ∧
        state.world.registered "a" = none ∧
        ∃ es', state.world.heap[es']? =
            some ⟨defaultStatus firstSpec, (defaultStatus firstSpec).status = some .started⟩ ∧
          ∀ other, state.world.streams.lookup other ≠ some es' :=
  ⟨rfl, rfl, by decide, by decide, WellFormed.single _ _,
    deleteStream_upsertStream_race rfl rfl (by decide) (by decide) (WellFormed.single _ _)⟩

/-- In that race, with the upserted spec `started`, neither order of the two calls as steps of the
service leaves what the race leaves: the delete first would leave the stream running, the upsert
first would leave no row. -/
theorem deleteStream_upsertStream_not_linearizable {w : World CT} {id : String} {es : Nat}
    {esSpec : EventStreamSpec CT} (registered : w.streams.lookup id = some es)
    (named : esSpec.id = some id) (nonEmpty : id.length ≠ 0)
    (started : (defaultStatus esSpec).status = some .started) :
    ∃ state, Reaches ⟨w, [(Operation.deleteStream id).prog, (Operation.upsertStream esSpec).prog]⟩
        state ∧
      state.threads.map Prog.result? = [some (.ok ()), some (.ok ())] ∧
      (∀ s, Service.Run w.service [.deleteStream id, .upsertStream esSpec] s →
        s.running id ≠ state.world.running id) ∧
      (∀ s, Service.Run w.service [.upsertStream esSpec, .deleteStream id] s →
        s.table.find? id ≠ state.world.eventStreams.find? id) := by
  have accepted : esSpec.status ≠ some .deleted := fun deleted => by
    simp [status_defaultStatus, deleted] at started
  have key : (defaultStatus esSpec).getID = id := by simp [named]
  refine ⟨_, reaches_delete_upsert_race registered named nonEmpty accepted, rfl, ?_, ?_⟩
  · rintro s (_ | ⟨deleted, _ | ⟨upserted, _ | _⟩⟩)
    cases deleted
    cases upserted with
    | upsert target _ =>
        obtain ⟨-, -, rfl⟩ | ⟨_, -, fresh, -⟩ := target
        · rw [key]
          simp [World.running, World.registered, World.removeStream, started]
        · simp [named, nonEmpty, EventStreamSpec.getID_of_id named] at fresh
  · rintro s (_ | ⟨upserted, _ | ⟨deleted, _ | _⟩⟩)
    cases upserted
    cases deleted
    simp [SpecTable.find?_delete, World.removeStream, World.find?_upsertSpec, key]

theorem deleteStream_upsertStream_not_linearizable_oneStream :
    oneStreamWorld.streams.lookup "a" = some 0 ∧ firstSpec.id = some "a" ∧ "a".length ≠ 0 ∧
      (defaultStatus firstSpec).status = some .started ∧
      ∃ state, Reaches ⟨oneStreamWorld, [(Operation.deleteStream "a").prog,
          (Operation.upsertStream firstSpec).prog]⟩ state ∧
        state.threads.map Prog.result? = [some (.ok ()), some (.ok ())] ∧
        (∀ s, Service.Run oneStreamWorld.service [.deleteStream "a", .upsertStream firstSpec] s →
          s.running "a" ≠ state.world.running "a") ∧
        (∀ s, Service.Run oneStreamWorld.service [.upsertStream firstSpec, .deleteStream "a"] s →
          s.table.find? "a" ≠ state.world.eventStreams.find? "a") :=
  ⟨rfl, rfl, by decide, rfl,
    deleteStream_upsertStream_not_linearizable rfl rfl (by decide) rfl⟩

end FireflyCommon.EventStreams
