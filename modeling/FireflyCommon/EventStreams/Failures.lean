import FireflyCommon.EventStreams.Service

set_option autoImplicit false

/-!
# What failed calls leave

A call whose request fails returns that request's error and keeps what it did before the request.
Seen from the service, short of the two partial updates (`Operation.leavesPartialUpdate`), the
error decides the outcome (`Service.Fail`): a reset whose `DeleteMany` fails has suspended its
stream; a reset whose restart fails has also persisted its new initial sequence ID; a delete
whose `Delete` fails has ended its stream and marked its row deleted; any other error leaves the
service as it was.
Operations served one after another, any of their requests failing, are then a run of the service
in which each call is a step when it returns nil and a failure when it returns an error
(`serve_refines_service_with_failures`).
-/

namespace FireflyCommon.EventStreams

open Prog World

variable {CT : Type}

/-- The errors after which an operation has changed the service: a reset that fails at deleting
the checkpoints or at restarting the stream, and a delete whose `Delete` fails. -/
def Operation.failureChanges : Operation CT → Error → Bool
  | .resetStream _ _, .failed .checkpointsDeleteMany => true
  | .resetStream _ _, .failed .start => true
  | .deleteStream _, .failed .eventStreamsDelete => true
  | _, _ => false

namespace Service

/-- What an operation that returns an error leaves of the service, short of a partial update,
for each error. -/
inductive Fail : Service CT → Operation CT → Error → Service CT → Prop where
  | unchanged {s : Service CT} {operation : Operation CT} {error : Error}
      (keeps : operation.failureChanges error = false) : Fail s operation error s
  | suspended {s : Service CT} {id sequenceID : String} (persisted : s.table.find? id ≠ none) :
      Fail s (.resetStream id sequenceID) (.failed .checkpointsDeleteMany)
        ⟨s.table, Function.update s.running id false⟩
  | notRestarted {s : Service CT} {id sequenceID : String} (persisted : s.table.find? id ≠ none) :
      Fail s (.resetStream id sequenceID) (.failed .start)
        ⟨s.table.updateSparse (.initialSequenceUpdate id sequenceID),
          Function.update s.running id false⟩
  | markedDeleted {s : Service CT} {id : String} (persisted : s.table.find? id ≠ none) :
      Fail s (.deleteStream id) (.failed .eventStreamsDelete)
        ⟨s.table.updateSparse (.statusUpdate (some id) .deleted), Function.update s.running id false⟩

/-- Operations one after another with their results: a step for each that returned nil, and a
failure for each that returned an error. -/
inductive Serve : Service CT → List (Operation CT × Except Error Unit) → Service CT → Prop where
  | nil {s : Service CT} : Serve s [] s
  | ok {s s' s'' : Service CT} {operation : Operation CT}
      {rest : List (Operation CT × Except Error Unit)} :
      Step s operation s' → Serve s' rest s'' → Serve s ((operation, .ok ()) :: rest) s''
  | error {s s' s'' : Service CT} {operation : Operation CT} {error : Error}
      {rest : List (Operation CT × Except Error Unit)} :
      Fail s operation error s' → Serve s' rest s'' → Serve s ((operation, .error error) :: rest) s''

end Service

/-- Served alone from a world whose registry agrees with its table, an operation that returns an
error, short of a partial update, leaves one of the failures of the service. -/
theorem Operation.wp_fail (operation : Operation CT) {w : World CT} (agree : w.Agree)
    (wellFormed : w.WellFormed) :
    operation.prog.wp (fun w' result _ => ∀ error, result = .error error →
      operation.leavesPartialUpdate result = false → Service.Fail w.service operation error w'.service)
      w := by
  cases operation with
  | upsertStream esSpec =>
      simp only [Operation.prog, bind_eq, wp_bind, upsertStream_wp, upsertSpec_wp]
      generalize w.upsertTarget esSpec = target
      obtain ⟨spec, existing⟩ := target
      split
      · simp [Service.Fail.unchanged, Operation.failureChanges]
      · refine ⟨by simp [Service.Fail.unchanged, Operation.failureChanges],
          by simp [Service.Fail.unchanged, Operation.failureChanges], ?_⟩
        rw [reInit_wp]
        cases existing <;> simp [Operation.leavesPartialUpdate]
  | startStream id =>
      rw [Operation.prog, startStream_wp]
      split <;> simp [Service.Fail.unchanged, Operation.failureChanges]
  | stopStream id =>
      rw [Operation.prog, stopStream_wp]
      split <;> simp [Service.Fail.unchanged, Operation.failureChanges]
  | resetStream id sequenceID =>
      rw [Operation.prog, resetStream_wp]
      split
      · simp [Service.Fail.unchanged, Operation.failureChanges]
      · next es registered =>
          obtain ⟨stream, live, -, persisted⟩ := agree.find?_of_lookup wellFormed registered
          have halted (w' : World CT) (streams : w'.streams = w.streams) (spec : EventStreamSpec CT)
              (moved : w'.heap[es]? = some ⟨spec, false⟩)
              (kept : ∀ other, other ≠ es → w'.heap[other]? = w.heap[other]?) :
              w'.running = Function.update w.running id false :=
            running_of_frame wellFormed registered _ streams moved kept
          simp only [status?_of_getElem? live]
          refine ⟨by rintro _ ⟨⟩ _; exact .unchanged rfl, ?_,
            by simp [Operation.leavesPartialUpdate], ?_⟩
          · rintro _ ⟨⟩ _
            simp only [World.service, eventStreams_setActive,
              halted (w.setActive es false) rfl stream.spec (by simp [live])
                fun other different => by simp [Ne.symm different]]
            exact .suspended (by simp [persisted])
          · split
            · refine ⟨?_, nofun⟩
              rintro _ ⟨⟩ _
              have restarted := halted
                ((((w.setActive es false).deleteCheckpoints id).setInitialSequenceID es sequenceID)
                  |>.updateSparse (.initialSequenceUpdate id sequenceID)) rfl
                { stream.spec with initialSequenceID := some sequenceID } (by simp [live])
                fun other different => by simp [Ne.symm different]
              simp only [World.service, updateSparse_eventStreams, eventStreams_setInitialSequenceID,
                deleteCheckpoints_eventStreams, eventStreams_setActive, restarted]
              exact .notRestarted (by simp [persisted])
            · exact nofun
  | deleteStream id =>
      rw [Operation.prog, deleteStream_wp]
      split
      · simp [Service.Fail.unchanged, Operation.failureChanges]
      · next es registered =>
          obtain ⟨stream, live, keyed, persisted⟩ := agree.find?_of_lookup wellFormed registered
          refine ⟨by rintro _ ⟨⟩ _; exact .unchanged rfl, ?_, nofun⟩
          rintro _ ⟨⟩ _
          simp only [World.service, World.running_recordStatus wellFormed registered live,
            World.eventStreams_recordStatus live keyed]
          exact .markedDeleted (by simp [persisted])

/-- Operations served one after another from a world whose registry agrees with its table, any of
their requests failing, are a run of the service in which each call is a step when it returns nil
and a failure when it returns an error, as long as no call fails midway through a partial update;
the registry and the table still agree after the last call. -/
theorem serve_refines_service_with_failures (calls : List (Operation CT × List Bool))
    {w : World CT} (agree : w.Agree) (wellFormed : w.WellFormed)
    (complete : ∀ served ∈ calls.zip (serve calls w).2,
      served.1.1.leavesPartialUpdate served.2 = false) :
    Service.Serve w.service ((calls.map Prod.fst).zip (serve calls w).2) (serve calls w).1.service ∧
      (serve calls w).1.Agree := by
  induction calls generalizing w with
  | nil => exact ⟨.nil, agree⟩
  | cons call rest inductionHypothesis =>
      rw [serve_cons] at complete ⊢
      have whole := complete _ (List.mem_cons_self _ _)
      have later := inductionHypothesis (run_of_wp (call.1.wp_agree agree wellFormed) call.2 whole)
        (wellFormed.run _ _) fun served member => complete served (List.mem_cons_of_mem _ member)
      have failed := run_of_wp (call.1.wp_fail agree wellFormed) call.2
      have stepped := run_of_wp (call.1.wp_service agree wellFormed) call.2
      refine ⟨?_, later.2⟩
      simp only [List.map_cons, List.zip_cons_cons]
      revert whole failed stepped
      cases (call.1.prog.run call.2 w).2 with
      | ok => exact fun _ _ stepped => .ok (stepped rfl) later.1
      | error error => exact fun whole failed _ => .error (failed error rfl whole) later.1

theorem serve_refines_service_with_failures_oneStream :
    oneStreamWorld.Agree ∧ oneStreamWorld.WellFormed ∧
    (∀ served ∈ oneStreamFailures.zip (serve oneStreamFailures oneStreamWorld).2,
      served.1.1.leavesPartialUpdate served.2 = false) ∧
    Service.Serve oneStreamWorld.service
      ((oneStreamFailures.map Prod.fst).zip (serve oneStreamFailures oneStreamWorld).2)
      (serve oneStreamFailures oneStreamWorld).1.service ∧
    (serve oneStreamFailures oneStreamWorld).1.Agree :=
  ⟨Agree.single _ _, WellFormed.single _ _, by decide,
    serve_refines_service_with_failures oneStreamFailures (Agree.single _ _) (WellFormed.single _ _)
      (by decide)⟩

end FireflyCommon.EventStreams
