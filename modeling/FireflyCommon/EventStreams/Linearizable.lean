import FireflyCommon.EventStreams.Isolation
import FireflyCommon.EventStreams.Startup

set_option autoImplicit false

/-!
# Calls on different streams, seen as the service

`Isolation` shows that a call on one stream, in any interleaving, leaves that stream as it would
alone. Here that is lifted to the service the manager provides. The service's step for a call on
one ID changes only that ID's row and running flag, and computes them from that ID's row alone
(`Service.Step.frame`, `Service.Step.local`), so the steps of calls on distinct IDs can be taken
one after another. Once every call of an interleaving has returned nil, the manager provides
what serving the calls one after another provides: the interleaving is linearizable.
-/

namespace FireflyCommon.EventStreams

open Prog Relation World

variable {CT : Type}

/-- What a service holds for one ID: its row, and whether its stream runs. -/
def Service.slot (s : Service CT) (id : String) : Option (EventStreamSpec CT) × Bool :=
  (s.table.find? id, s.running id)

namespace Service

variable {s s' t : Service CT} {operation : Operation CT} {id : String}

/-- The step for a call on `id` changes no other ID's row or running flag. -/
theorem Step.frame (step : Step s operation s') (target : operation.target = some id)
    {other : String} (different : other ≠ id) : s'.slot other = s.slot other := by
  cases step with
  | upsert => cases target
  | start => cases target; simp [slot, Function.update_noteq different]
  | stop =>
      cases target
      simp [slot, SpecTable.find?_updateSparse, EventStreamSpec.getID, EventStreamSpec.statusUpdate,
        Ne.symm different, Function.update_noteq different]
  | reset =>
      cases target
      simp [slot, SpecTable.find?_updateSparse, Ne.symm different, Function.update_noteq different]
  | delete =>
      cases target
      simp [slot, SpecTable.find?_delete, Ne.symm different, Function.update_noteq different]

/-- The step for a call on `id` depends only on that ID's row: from a service with the same row
there, the call takes a step to the same row and running flag. -/
theorem Step.local (step : Step s operation s') (target : operation.target = some id)
    (same : t.slot id = s.slot id) : ∃ t', Step t operation t' ∧ t'.slot id = s'.slot id := by
  have row : t.table.find? id = s.table.find? id := congrArg Prod.fst same
  cases step with
  | upsert => cases target
  | start persisted => cases target; exact ⟨_, .start (row ▸ persisted), by simp [slot, row]⟩
  | stop persisted =>
      cases target
      exact ⟨_, .stop (row ▸ persisted), by simp [slot, SpecTable.find?_updateSparse, row]⟩
  | reset persisted =>
      cases target
      exact ⟨_, .reset (row.trans persisted), by simp [slot, SpecTable.find?_updateSparse, row]⟩
  | delete persisted =>
      cases target
      exact ⟨_, .delete (row ▸ persisted), by simp [slot, SpecTable.find?_delete]⟩

/-- A call on `id` has one outcome on its ID. -/
theorem Step.slot_eq {t' : Service CT} (step : Step s operation s') (step' : Step s operation t')
    (target : operation.target = some id) : s'.slot id = t'.slot id := by
  cases step with
  | upsert => cases target
  | reset persisted =>
      cases step' with
      | reset persisted' =>
          rw [persisted, Option.some.injEq] at persisted'
          subst persisted'
          rfl
  | _ => cases step'; rfl

/-- Steps of calls on distinct IDs, each possible from `s`, are taken one after another: the run
leaves each named ID's row and running flag as its own step from `s` does, and every other ID's as
they were. -/
theorem run_of_distinct {calls : List (Operation CT)} {ids : List String}
    (named : calls.map Operation.target = ids.map some) (distinct : ids.Nodup) {s : Service CT}
    (steps : ∀ call ∈ calls, ∃ s', Step s call s') :
    ∃ s', Run s calls s' ∧ (∀ id, id ∉ ids → s'.slot id = s.slot id) ∧
      ∀ call ∈ calls, ∀ id s'', call.target = some id → Step s call s'' → s'.slot id = s''.slot id := by
  induction calls generalizing ids s with
  | nil =>
      exact ⟨s, .nil, fun _ _ => rfl, nofun⟩
  | cons call rest inductionHypothesis =>
      obtain ⟨first, others, rfl⟩ : ∃ first others, ids = first :: others := by
        cases ids with
        | nil => cases named
        | cons first others => exact ⟨first, others, rfl⟩
      simp only [List.map_cons, List.cons.injEq] at named
      obtain ⟨target, named⟩ := named
      obtain ⟨fresh, distinct⟩ := List.nodup_cons.mp distinct
      obtain ⟨s₁, step⟩ := steps call (List.mem_cons_self _ _)
      have elsewhere : ∀ later ∈ rest, ∃ id ∈ others, later.target = some id := fun later member => by
        have listed := List.mem_map_of_mem Operation.target member
        rw [named] at listed
        obtain ⟨id, listedID, same⟩ := List.mem_map.mp listed
        exact ⟨id, listedID, same.symm⟩
      have apart : ∀ later ∈ rest, ∀ id, later.target = some id → id ≠ first :=
        fun later member id laterTarget same => by
          obtain ⟨id', listedID, laterTarget'⟩ := elsewhere later member
          rw [laterTarget, Option.some.injEq] at laterTarget'
          exact fresh (same ▸ laterTarget' ▸ listedID)
      have fromFirst : ∀ later ∈ rest, ∃ s', Step s₁ later s' := fun later member => by
        obtain ⟨s', laterStep⟩ := steps later (List.mem_cons_of_mem _ member)
        obtain ⟨id, -, laterTarget⟩ := elsewhere later member
        obtain ⟨t', step', -⟩ :=
          laterStep.local laterTarget (step.frame target (apart later member id laterTarget))
        exact ⟨t', step'⟩
      obtain ⟨s', run, kept, reached⟩ := inductionHypothesis named distinct fromFirst
      refine ⟨s', .cons step run, fun id unnamed => ?_, fun later member id s'' laterTarget laterStep => ?_⟩
      · exact (kept id fun listed => unnamed (List.mem_cons_of_mem _ listed)).trans
          (step.frame target fun same => unnamed (same ▸ List.mem_cons_self _ _))
      · rcases List.mem_cons.mp member with rfl | later'
        · rw [target, Option.some.injEq] at laterTarget
          subst laterTarget
          exact (kept _ fresh).trans (step.slot_eq laterStep target)
        · obtain ⟨t', step', sameSlot⟩ :=
            laterStep.local laterTarget (step.frame target (apart later later' id laterTarget))
          exact (reached later later' id t' laterTarget step').trans sameSlot

end Service

/-- A call on a stream leaves the registry entry of its ID as it was, or removes it. -/
theorem Operation.wp_entry {operation : Operation CT} {id : String}
    (target : operation.target = some id) (w : World CT) :
    operation.prog.wp (fun w' _ _ => w'.streams.lookup id = w.streams.lookup id ∨
      w'.streams.lookup id = none) w := by
  cases operation with
  | upsertStream => cases target
  | startStream =>
      cases target
      rw [Operation.prog, startStream_wp]
      split <;> simp
  | stopStream =>
      cases target
      rw [Operation.prog, stopStream_wp]
      split <;> simp
  | resetStream _ sequenceID =>
      cases target
      rw [Operation.prog, resetStream_wp]
      split
      · simp
      · refine ⟨by simp, by simp, by simp, ?_⟩
        split <;> simp
  | deleteStream =>
      cases target
      rw [Operation.prog, deleteStream_wp]
      split <;> simp [World.removeStream]

/-- Worlds with the same view of `id`, found as `es`, the second of which still has `es` or no
entry for `id`, have the same stream registered under `id`. -/
theorem World.registered_eq_of_view {w₁ w₂ : World CT} {id : String} {es : Option Nat}
    (viewed : w₁.view id es = w₂.view id es)
    (entry : w₂.streams.lookup id = es ∨ w₂.streams.lookup id = none) :
    w₁.registered id = w₂.registered id := by
  simp only [World.view, StreamView.mk.injEq] at viewed
  obtain ⟨sameEntry, sameStream, -, -⟩ := viewed
  unfold World.registered
  rcases entry with kept | removed
  · rw [sameEntry, kept]
    exact sameStream
  · rw [sameEntry, removed]
    rfl

/-- The same worlds agree on whether `id` runs. -/
theorem World.running_eq_of_view {w₁ w₂ : World CT} {id : String} {es : Option Nat}
    (viewed : w₁.view id es = w₂.view id es)
    (entry : w₂.streams.lookup id = es ∨ w₂.streams.lookup id = none) :
    w₁.running id = w₂.running id := by
  simp only [World.running, World.registered_eq_of_view viewed entry]

/-- Calls on distinct streams are linearizable. Take any interleaving of `StartStream`,
`StopStream`, `ResetStream` and `DeleteStream` calls on distinct IDs, begun from a world whose
registry agrees with its table. Once every call has returned nil, the manager provides the
service that serving the calls one after another provides: every ID has the row, and runs
exactly when, the service's run of the calls leaves it. -/
theorem calls_on_distinct_streams_linearizable {w : World CT} (agree : w.Agree)
    (wellFormed : w.WellFormed) {calls : List (Operation CT)} {ids : List String}
    (named : calls.map Operation.target = ids.map some) (distinct : ids.Nodup)
    {state : Threads CT} (reached : Reaches ⟨w, calls.map Operation.prog⟩ state)
    (returned : ∀ p ∈ state.threads, p.result? = some (.ok ())) :
    ∃ s, Service.Run w.service calls s ∧
      ∀ id, s.table.find? id = state.world.eventStreams.find? id ∧ s.running id = state.world.running id := by
  have holds := Isolated.of_reaches wellFormed named distinct reached
  have lengths : calls.length = ids.length := by simpa using congrArg List.length named
  have alone : ∀ (i : Nat) (call : Operation CT) (id : String), calls[i]? = some call →
      ids[i]? = some id → call.target = some id ∧ ∃ solo : World CT, Service.Step w.service call solo.service ∧
        solo.service.slot id = state.world.service.slot id := by
    intro i call id callFound idFound
    obtain ⟨id', idFound', target⟩ := target_of_named named callFound
    rw [idFound, Option.some.injEq] at idFound'
    subst idFound'
    have inside : i < state.threads.length :=
      holds.length ▸ (List.getElem?_eq_some_iff.mp callFound).1
    have threadFound := List.getElem?_eq_getElem inside
    obtain ⟨plan, ranOk, viewed⟩ := holds.finished callFound idFound threadFound
      (returned _ (List.getElem?_mem threadFound))
    refine ⟨target, (call.prog.run plan w).1, run_of_wp (call.wp_service agree wellFormed) plan ranOk, ?_⟩
    have entry := run_of_wp (Operation.wp_entry target w) plan
    exact Prod.ext (congrArg StreamView.row viewed) (World.running_eq_of_view viewed.symm entry).symm
  have steps : ∀ call ∈ calls, ∃ s', Service.Step w.service call s' := fun call member => by
    obtain ⟨i, callFound⟩ := List.mem_iff_getElem?.mp member
    obtain ⟨id, idFound, -⟩ := target_of_named named callFound
    obtain ⟨-, solo, step, -⟩ := alone i call id callFound idFound
    exact ⟨_, step⟩
  obtain ⟨s, run, kept, stepped⟩ := Service.run_of_distinct named distinct steps
  refine ⟨s, run, fun id => ?_⟩
  suffices same : s.slot id = state.world.service.slot id from Prod.ext_iff.mp same
  by_cases member : id ∈ ids
  · obtain ⟨i, idFound⟩ := List.mem_iff_getElem?.mp member
    have inside : i < calls.length := lengths ▸ (List.getElem?_eq_some_iff.mp idFound).1
    have callFound := List.getElem?_eq_getElem inside
    obtain ⟨target, solo, step, sameSlot⟩ := alone i _ id callFound idFound
    exact (stepped _ (List.getElem?_mem callFound) id _ target step).trans sameSlot
  · have viewed := holds.untouched id member
    rw [kept id member]
    exact Prod.ext (congrArg StreamView.row viewed).symm (World.running_eq_of_view viewed (.inl rfl)).symm

theorem agree_twoStreamWorld : twoStreamWorld.Agree := by
  unfold twoStreamWorld
  refine (run_of_wp (initializeFrom_wp_loaded _ 2 0 ?_ ⟨rfl, WellFormed.boot _ _, fun _ => rfl⟩) [] ?_).1
  · decide
  · rfl

theorem calls_on_distinct_streams_linearizable_stopAndReset :
    twoStreamWorld.Agree ∧ twoStreamWorld.WellFormed ∧
    stopAndReset.map Operation.target = ["a", "b"].map some ∧ ["a", "b"].Nodup ∧
    Reaches ⟨twoStreamWorld, stopAndReset.map Operation.prog⟩
      (schedule stopAndResetOrder ⟨twoStreamWorld, stopAndReset.map Operation.prog⟩) ∧
    (∀ p ∈ (schedule stopAndResetOrder ⟨twoStreamWorld, stopAndReset.map Operation.prog⟩).threads,
      p.result? = some (.ok ())) ∧
    ∃ s, Service.Run twoStreamWorld.service stopAndReset s ∧ ∀ id,
      s.table.find? id =
        (schedule stopAndResetOrder ⟨twoStreamWorld, stopAndReset.map Operation.prog⟩).world.eventStreams.find? id ∧
      s.running id = (schedule stopAndResetOrder ⟨twoStreamWorld, stopAndReset.map Operation.prog⟩).world.running id := by
  have agree := agree_twoStreamWorld
  have wellFormed : twoStreamWorld.WellFormed :=
    World.WellFormed.run (initializeManager 2) [] (World.WellFormed.boot _ _)
  have named : stopAndReset.map Operation.target = ["a", "b"].map some := rfl
  have returned : ∀ p ∈ (schedule stopAndResetOrder ⟨twoStreamWorld, stopAndReset.map Operation.prog⟩).threads,
      p.result? = some (.ok ()) := by decide
  exact ⟨agree, wellFormed, named, by decide, reaches_schedule _ _, returned,
    calls_on_distinct_streams_linearizable agree wellFormed named (by decide) (reaches_schedule _ _) returned⟩

end FireflyCommon.EventStreams
