import FireflyCommon.EventStreams.Idempotence
import FireflyCommon.EventStreams.Agreement

set_option autoImplicit false

/-!
# The service the manager provides

Seen from its callers, the manager keeps a table of specs and runs some of them. `Service.Step`
says what each operation does to that when it returns nil: an upsert writes its spec, under a new
ID when it names none, and runs it exactly when its status is `started`; a start runs the stream;
a stop records `stopped` and ends it; a reset moves the initial sequence ID and runs the stream
exactly when its status is `started`; a delete removes the row and ends the stream.

`World.service` reads that off a manager's world. Operations served one after another from a
world whose registry agrees with its table, each returning nil, are a run of the service
(`serve_refines_service`).
-/

namespace FireflyCommon.EventStreams

open Prog World

variable {CT : Type}

/-- What the manager is for: the persisted specs, and whether the stream of each ID runs. -/
structure Service (CT : Type) where
  table : SpecTable CT
  running : String → Bool

namespace Service

/-- What an operation that returns nil does to the service. -/
inductive Step : Service CT → Operation CT → Service CT → Prop where
  | upsert {s : Service CT} {esSpec spec : EventStreamSpec CT}
      (target : (esSpec.id ≠ none ∧ esSpec.getID.length ≠ 0 ∧ spec = defaultStatus esSpec) ∨
        ∃ id, s.table.find? id = none ∧ (esSpec.id = none ∨ esSpec.getID.length = 0) ∧
          spec = defaultStatus { esSpec with id := some id })
      (accepted : spec.status = some .started ∨ spec.status = some .stopped) :
      Step s (.upsertStream esSpec)
        ⟨(s.table.upsert spec).1,
          Function.update s.running spec.getID (decide (spec.status = some .started))⟩
  | start {s : Service CT} {id : String} (persisted : s.table.find? id ≠ none) :
      Step s (.startStream id) ⟨s.table, Function.update s.running id true⟩
  | stop {s : Service CT} {id : String} (persisted : s.table.find? id ≠ none) :
      Step s (.stopStream id)
        ⟨s.table.updateSparse (.statusUpdate (some id) .stopped), Function.update s.running id false⟩
  | reset {s : Service CT} {id sequenceID : String} {row : EventStreamSpec CT}
      (persisted : s.table.find? id = some row) :
      Step s (.resetStream id sequenceID)
        ⟨s.table.updateSparse (.initialSequenceUpdate id sequenceID),
          Function.update s.running id (decide (row.status = some .started))⟩
  | delete {s : Service CT} {id : String} (persisted : s.table.find? id ≠ none) :
      Step s (.deleteStream id) ⟨s.table.delete id, Function.update s.running id false⟩

/-- Operations one after another, each a step of the service. -/
inductive Run : Service CT → List (Operation CT) → Service CT → Prop where
  | nil {s : Service CT} : Run s [] s
  | cons {s s' s'' : Service CT} {operation : Operation CT} {rest : List (Operation CT)} :
      Step s operation s' → Run s' rest s'' → Run s (operation :: rest) s''

end Service

/-- Whether the stream registered under `id` runs. -/
def World.running (w : World CT) (id : String) : Bool :=
  match w.registered id with
  | some stream => stream.active
  | none => false

/-- The service a manager's world provides. -/
def World.service (w : World CT) : Service CT := ⟨w.eventStreams, w.running⟩

/-- Where every stream object runs exactly when its status is `started`, so does the stream
registered under each ID. -/
theorem World.running_of_honoured {w : World CT}
    (honoured : ∀ stream ∈ w.heap, stream.active = decide (stream.spec.status = some .started))
    (id : String) : w.running id = decide ((w.liveSpec id).bind (·.status) = some .started) := by
  unfold World.running World.liveSpec
  split
  · next stream registered =>
      obtain ⟨es, -, found⟩ := Option.bind_eq_some.mp registered
      rw [registered, honoured stream (List.getElem?_mem found)]
      rfl
  · next unregistered =>
      rw [unregistered]
      rfl

namespace SpecTable

/-- A status update reaches the row with its ID, however the ID is written. -/
theorem updateSparse_statusUpdate (table : SpecTable CT) {id id' : Option String}
    (sameID : id.getD "" = id'.getD "") (status : EventStreamStatus) :
    table.updateSparse (.statusUpdate id status) = table.updateSparse (.statusUpdate id' status) := by
  apply SpecTable.ext
  show table.rows.map (updateRow _) = table.rows.map (updateRow _)
  congr 1
  funext row
  unfold updateRow
  rw [show (EventStreamSpec.statusUpdate id status : EventStreamSpec CT).getID = id'.getD "" from
    sameID]
  rfl

/-- Deleting a row undoes a sparse update of it. -/
theorem delete_updateSparse (table : SpecTable CT) {sparse : EventStreamSpec CT} {id : String}
    (sameID : sparse.getID = id) : (table.updateSparse sparse).delete id = table.delete id := by
  apply SpecTable.ext
  simp only [delete, updateSparse, List.filter_map, Function.comp_def, getID_updateRow]
  refine (List.map_congr_left fun row member => ?_).trans (List.map_id _)
  have different : row.getID ≠ id := by simpa using (List.mem_filter.mp member).2
  simp [updateRow, sameID, different]

end SpecTable

namespace Service

/-- No persisted spec is marked deleted, as between calls that return nil: a stop records
`stopped`, and a delete that records `deleted` removes the row before it returns nil. -/
def Settled (s : Service CT) : Prop := ∀ row ∈ s.table.rows, row.status ≠ some .deleted

theorem settled_updateSparse {s : Service CT} (settled : s.Settled) {sparse : EventStreamSpec CT}
    (status : sparse.status ≠ some .deleted) (running : String → Bool) :
    Settled ⟨s.table.updateSparse sparse, running⟩ := by
  intro row member
  obtain ⟨old, kept, rfl⟩ := SpecTable.mem_updateSparse member
  have unmarked := settled old kept
  unfold SpecTable.updateRow
  split
  · cases written : sparse.status <;> simp_all [EventStreamSpec.merge]
  · exact unmarked

theorem Step.settled {s s' : Service CT} {operation : Operation CT} (step : Step s operation s')
    (settled : s.Settled) : s'.Settled := by
  cases step with
  | upsert _ accepted =>
      intro row member
      rcases SpecTable.mem_upsert member with kept | rfl
      · exact settled row kept
      · rcases accepted with started | stopped <;> simp [*]
  | start => exact settled
  | stop => exact settled_updateSparse settled (by simp [EventStreamSpec.statusUpdate]) _
  | reset => exact settled_updateSparse settled (by simp [EventStreamSpec.initialSequenceUpdate]) _
  | delete => exact fun row member => settled row (SpecTable.mem_delete member)

/-- Every run of the service keeps every persisted spec unmarked. -/
theorem Run.settled {s s' : Service CT} {calls : List (Operation CT)} (run : Run s calls s')
    (settled : s.Settled) : s'.Settled := by
  induction run with
  | nil => exact settled
  | cons step _ inductionHypothesis => exact inductionHypothesis (step.settled settled)

end Service

namespace World

variable {w : World CT}

theorem Agree.find?_of_lookup (agree : w.Agree) (wellFormed : w.WellFormed) {id : String}
    {es : Nat} (registered : w.streams.lookup id = some es) :
    ∃ stream, w.heap[es]? = some stream ∧ stream.spec.getID = id ∧
      w.eventStreams.find? id = some stream.spec := by
  obtain ⟨stream, live, keyed⟩ := wellFormed.keyed id es registered
  refine ⟨stream, live, keyed, (agree id).symm.trans ?_⟩
  simp [liveSpec, World.registered, registered, live]

/-- Writes to one registered stream, and to no other, change whether its ID runs, and nothing
else. -/
theorem running_of_frame (wellFormed : w.WellFormed) {id : String} {es : Nat}
    (registered : w.streams.lookup id = some es) {w' : World CT} (stream : EventStream CT)
    (streams : w'.streams = w.streams) (live : w'.heap[es]? = some stream)
    (kept : ∀ other, other ≠ es → w'.heap[other]? = w.heap[other]?) :
    w'.running = Function.update w.running id stream.active := by
  funext other
  by_cases same : other = id
  · subst same
    simp [World.running, World.registered, streams, registered, live]
  · rw [Function.update_noteq same]
    simp only [World.running, World.registered, streams]
    cases found : w.streams.lookup other with
    | none => rfl
    | some es' =>
        have different : es' ≠ es := fun sameStream =>
          same (wellFormed.key_unique (sameStream ▸ found) registered)
        simp [kept es' different]

/-- Recording a status suspends the stream, so its ID no longer runs. -/
theorem running_recordStatus (wellFormed : w.WellFormed) {id : String} {es : Nat}
    (registered : w.streams.lookup id = some es) {stream : EventStream CT}
    (live : w.heap[es]? = some stream) (status : EventStreamStatus) :
    (w.recordStatus es status).running = Function.update w.running id false :=
  running_of_frame wellFormed registered ⟨{ stream.spec with status := some status }, false⟩ rfl
    (by simp [getElem?_modify_heap, live])
    fun other different => by simp [getElem?_modify_heap, Ne.symm different]

/-- Recording a status writes it to the row of the stream's ID. -/
theorem eventStreams_recordStatus {id : String} {es : Nat} {stream : EventStream CT}
    (live : w.heap[es]? = some stream) (keyed : stream.spec.getID = id)
    (status : EventStreamStatus) :
    (w.recordStatus es status).eventStreams =
      w.eventStreams.updateSparse (.statusUpdate (some id) status) := by
  simp only [recordStatus_eventStreams, live]
  exact SpecTable.updateSparse_statusUpdate _
    (show stream.spec.id.getD "" = (some id).getD "" from keyed) _

theorem running_removeStream (id : String) :
    (w.removeStream id).running = Function.update w.running id false := by
  funext other
  by_cases same : other = id
  · subst same
    simp [World.running, World.registered, World.removeStream]
  · simp [World.running, World.registered, World.removeStream, same, AList.lookup_erase_ne same]

end World

/-- An `UpsertStream` that returns nil accepted the status of the spec it stores and leaves the
world `upserted` describes. -/
theorem upsertStream_prog_wp (esSpec : EventStreamSpec CT) (w : World CT) :
    (Operation.upsertStream esSpec).prog.wp (fun w' result _ => result = .ok () →
      ((w.upsertTarget esSpec).1.status = some .started ∨
        (w.upsertTarget esSpec).1.status = some .stopped) ∧ w' = w.upserted esSpec) w := by
  simp only [Operation.prog, bind_eq, wp_bind, upsertStream_wp, upsertSpec_wp]
  unfold World.upserted
  generalize w.upsertTarget esSpec = target
  obtain ⟨spec, existing⟩ := target
  dsimp only
  split
  · simp
  · next accepted =>
      have accepted : spec.status = some .started ∨ spec.status = some .stopped := by tauto
      refine ⟨by simp, by simp, ?_⟩
      rw [reInit_wp]
      cases existing <;> simp only [World.rebuilt] <;> split <;> simp [accepted]

/-- Served alone from a world whose registry agrees with its table, an operation that returns nil
is a step of the service. -/
theorem Operation.wp_service (operation : Operation CT) {w : World CT} (agree : w.Agree)
    (wellFormed : w.WellFormed) :
    operation.prog.wp (fun w' result _ => result = .ok () →
      Service.Step w.service operation w'.service) w := by
  cases operation with
  | upsertStream esSpec =>
      refine wp_mono (upsertStream_prog_wp esSpec w) fun w' result _ holds succeeded => ?_
      obtain ⟨accepted, rfl⟩ := holds succeeded
      have running : (w.upserted esSpec).running = Function.update w.running
          (w.upsertTarget esSpec).1.getID (decide ((w.upsertTarget esSpec).1.status = some .started)) := by
        funext id
        simp only [World.running, registered_upserted wellFormed, Function.update_apply]
        split_ifs <;> rfl
      have target : ((esSpec.id ≠ none ∧ esSpec.getID.length ≠ 0 ∧
          (w.upsertTarget esSpec).1 = defaultStatus esSpec) ∨
          ∃ id, w.eventStreams.find? id = none ∧ (esSpec.id = none ∨ esSpec.getID.length = 0) ∧
            (w.upsertTarget esSpec).1 = defaultStatus { esSpec with id := some id }) := by
        unfold World.upsertTarget
        split
        · next fresh => exact .inr ⟨w.newID, w.find?_newID, fresh, rfl⟩
        · next named => exact .inl ⟨fun none => named (.inl none), fun empty => named (.inr empty), rfl⟩
      simp only [World.service, eventStreams_upserted, running]
      exact .upsert target accepted
  | startStream id =>
      rw [Operation.prog, startStream_wp]
      split
      · simp
      · next es registered =>
          obtain ⟨stream, live, -, persisted⟩ := agree.find?_of_lookup wellFormed registered
          refine ⟨nofun, fun _ => ?_⟩
          have running : (w.setActive es true).running = Function.update w.running id true :=
            running_of_frame wellFormed registered { stream with active := true } rfl
              (by simp [getElem?_setActive, live])
              fun other different => by simp [getElem?_setActive, Ne.symm different]
          simp only [World.service, eventStreams_setActive, running]
          exact .start (by simp [persisted])
  | stopStream id =>
      rw [Operation.prog, stopStream_wp]
      split
      · simp
      · next es registered =>
          obtain ⟨stream, live, keyed, persisted⟩ := agree.find?_of_lookup wellFormed registered
          refine ⟨nofun, fun _ => ?_⟩
          simp only [World.service, World.running_recordStatus wellFormed registered live,
            World.eventStreams_recordStatus live keyed]
          exact .stop (by simp [persisted])
  | resetStream id sequenceID =>
      rw [Operation.prog, resetStream_wp]
      split
      · simp
      · next es registered =>
          obtain ⟨stream, live, -, persisted⟩ := agree.find?_of_lookup wellFormed registered
          have step (w' : World CT) (streams : w'.streams = w.streams)
              (table : w'.eventStreams = w.eventStreams.updateSparse (.initialSequenceUpdate id sequenceID))
              (moved : w'.heap[es]? = some ⟨{ stream.spec with initialSequenceID := some sequenceID },
                decide (stream.spec.status = some .started)⟩)
              (kept : ∀ other, other ≠ es → w'.heap[other]? = w.heap[other]?) :
              Service.Step w.service (.resetStream id sequenceID) w'.service := by
            simp only [World.service, table, running_of_frame wellFormed registered _ streams moved kept]
            exact .reset persisted
          simp only [status?_of_getElem? live]
          refine ⟨nofun, nofun, nofun, ?_⟩
          split
          · next started =>
              exact ⟨nofun, fun _ => step _ (by simp) (by simp) (by simp [live, started])
                fun other different => by simp [Ne.symm different]⟩
          · next notStarted =>
              exact fun _ => step _ (by simp) (by simp) (by simp [live, notStarted])
                fun other different => by simp [Ne.symm different]
  | deleteStream id =>
      rw [Operation.prog, deleteStream_wp]
      split
      · simp
      · next es registered =>
          obtain ⟨stream, live, keyed, persisted⟩ := agree.find?_of_lookup wellFormed registered
          refine ⟨nofun, nofun, fun _ => ?_⟩
          have running : ((((w.recordStatus es .deleted).deleteSpec id).removeStream id)).running =
              Function.update w.running id false := by
            rw [World.running_removeStream]
            exact (congrArg (Function.update · id false)
              (World.running_recordStatus wellFormed registered live .deleted)).trans
              (Function.update_idem _ _ _)
          have table : (((w.recordStatus es .deleted).deleteSpec id).removeStream id).eventStreams =
              w.eventStreams.delete id := by
            simp only [World.removeStream, World.deleteSpec_eventStreams, World.recordStatus_eventStreams,
              live]
            exact SpecTable.delete_updateSparse _ keyed
          simp only [World.service, running, table]
          exact .delete (by simp [persisted])

/-- Operations served one after another from a world whose registry agrees with its table, each
returning nil, are a run of the service and leave the registry agreeing with the table. -/
theorem serve_service_run (calls : List (Operation CT × List Bool)) {w : World CT}
    (agree : w.Agree) (wellFormed : w.WellFormed)
    (allOk : ∀ result ∈ (serve calls w).2, result = .ok ()) :
    Service.Run w.service (calls.map Prod.fst) (serve calls w).1.service ∧ (serve calls w).1.Agree := by
  induction calls generalizing w with
  | nil => exact ⟨.nil, agree⟩
  | cons call rest inductionHypothesis =>
      rw [serve_cons] at allOk ⊢
      have succeeded := allOk _ (List.mem_cons_self _ _)
      have agreeNext := run_of_wp (call.1.wp_agree agree wellFormed) call.2
      rw [succeeded, Operation.leavesPartialUpdate_ok] at agreeNext
      have later := inductionHypothesis (agreeNext rfl) (wellFormed.run _ _)
        fun result member => allOk result (List.mem_cons_of_mem _ member)
      exact ⟨.cons (run_of_wp (call.1.wp_service agree wellFormed) call.2 succeeded) later.1, later.2⟩

/-- Operations served one after another from a world whose registry agrees with its table, each
returning nil, are a run of the service: the manager refines its table-and-running-set model. -/
theorem serve_refines_service (calls : List (Operation CT × List Bool)) {w : World CT}
    (agree : w.Agree) (wellFormed : w.WellFormed)
    (allOk : ∀ result ∈ (serve calls w).2, result = .ok ()) :
    Service.Run w.service (calls.map Prod.fst) (serve calls w).1.service :=
  (serve_service_run calls agree wellFormed allOk).1

theorem serve_refines_service_oneStream :
    oneStreamWorld.Agree ∧ oneStreamWorld.WellFormed ∧
      (∀ result ∈ (serve oneStreamCalls oneStreamWorld).2, result = .ok ()) ∧
      Service.Run oneStreamWorld.service (oneStreamCalls.map Prod.fst)
        (serve oneStreamCalls oneStreamWorld).1.service :=
  ⟨Agree.single _ _, WellFormed.single _ _, by decide,
    serve_refines_service oneStreamCalls (Agree.single _ _) (WellFormed.single _ _) (by decide)⟩

end FireflyCommon.EventStreams
