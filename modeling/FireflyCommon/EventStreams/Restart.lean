import FireflyCommon.EventStreams.Startup

set_option autoImplicit false

/-!
# Restarting a manager

What a manager has persisted survives a restart. Calls that return nil leave no row marked
deleted (`Service.Run.settled`: a delete that records `deleted` removes the row before it returns
nil), so a new manager's `initialize` purges nothing and skips nothing, and when it returns nil
its registry holds exactly the persisted specs. `initEventStream` starts each of them whose
persisted status is `started`, so what runs after the restart is read off the persisted table.
-/

namespace FireflyCommon.EventStreams

open Prog World

variable {CT : Type}

/-- A new manager on the tables `w` persisted: `NewEventStreamManager`'s call to `initialize`,
run for at most `fuel` pages. -/
def World.restart (w : World CT) (fuel : Nat) (plan : List Bool) :
    World CT × Except Error (Option Unit) :=
  (initializeManager fuel).run plan (World.boot w.eventStreams w.checkpoints)

/-- Durability across a restart. Calls served one after another from a manager whose registry
agrees with its table and whose table has no row marked deleted, each returning nil, leave
tables on which a new manager, once its `initialize` returns nil, registers exactly the persisted
specs under their IDs and runs exactly those whose persisted status is `started`. -/
theorem restart_recovers_served_table (calls : List (Operation CT × List Bool)) {w : World CT}
    (agree : w.Agree) (wellFormed : w.WellFormed) (settled : w.service.Settled)
    (allOk : ∀ result ∈ (serve calls w).2, result = .ok ()) {fuel : Nat} {plan : List Bool}
    (restarted : ((serve calls w).1.restart fuel plan).2 = .ok (some ())) :
    ((serve calls w).1.restart fuel plan).1.Agree ∧
      ((serve calls w).1.restart fuel plan).1.service = ⟨(serve calls w).1.eventStreams,
        fun id => decide (((serve calls w).1.eventStreams.find? id).bind (·.status) = some .started)⟩ := by
  have unmarked := (serve_service_run calls agree wellFormed allOk).1.settled settled
  generalize (serve calls w).1 = served at unmarked restarted ⊢
  unfold World.restart initializeManager at restarted ⊢
  have start : Loaded served.eventStreams (served.eventStreams.rows.take 0)
      (World.boot served.eventStreams served.checkpoints) :=
    ⟨rfl, WellFormed.boot _ _, fun _ => rfl⟩
  have loaded := run_of_wp (initializeFrom_wp_loaded _ fuel 0 unmarked start) plan restarted
  have honoured := run_of_wp
    (initializeFrom_wp_honoured fuel 0 (World.boot served.eventStreams served.checkpoints) nofun) plan
  refine ⟨loaded.1, ?_⟩
  simp only [World.service, loaded.2]
  exact congrArg _ (funext fun id => by rw [World.running_of_honoured honoured, loaded.1 id, loaded.2]; rfl)

/-- A reset of the running stream `"a"` and an upsert of a new stream `"b"`, each returning nil. -/
def resetAndAdd : List (Operation Unit × List Bool) :=
  [(.resetStream "a" "3", []), (.upsertStream ⟨some "b", none, none, none⟩, [])]

theorem restart_recovers_served_table_resetAndAdd :
    oneStreamWorld.Agree ∧ oneStreamWorld.WellFormed ∧ oneStreamWorld.service.Settled ∧
      (∀ result ∈ (serve resetAndAdd oneStreamWorld).2, result = .ok ()) ∧
      ((serve resetAndAdd oneStreamWorld).1.restart 2 []).2 = .ok (some ()) ∧
      ((serve resetAndAdd oneStreamWorld).1.restart 2 []).1.Agree ∧
      ((serve resetAndAdd oneStreamWorld).1.restart 2 []).1.service =
        ⟨(serve resetAndAdd oneStreamWorld).1.eventStreams, fun id => decide
          (((serve resetAndAdd oneStreamWorld).1.eventStreams.find? id).bind (·.status) = some .started)⟩ := by
  have settled : oneStreamWorld.service.Settled := by
    unfold Service.Settled
    decide
  have allOk : ∀ result ∈ (serve resetAndAdd oneStreamWorld).2, result = .ok () := by decide
  have restarted : ((serve resetAndAdd oneStreamWorld).1.restart 2 []).2 = .ok (some ()) := by
    decide
  exact ⟨Agree.single _ _, WellFormed.single _ _, settled, allOk, restarted,
    restart_recovers_served_table resetAndAdd (Agree.single _ _) (WellFormed.single _ _) settled
      allOk restarted⟩

end FireflyCommon.EventStreams
