import FireflyCommon.EventStreams.Reset
import FireflyCommon.EventStreams.WellFormed

set_option autoImplicit false

/-!
# Upserting the same spec twice

An `UpsertStream` whose requests all succeed persists its spec and registers a new stream for it,
running exactly when the spec's status is `started` (`run_upsertStream_of_ok`). For a spec that
names its ID, a second such call writes the row the table already holds and replaces the stream
with one built from the same spec, so the table and what is registered under each ID are those
the first call left. Only `isNew`, and the stream objects no entry names, differ.
-/

namespace FireflyCommon.EventStreams

open Prog World

variable {CT : Type}

/-- `reInit` past its suspend, when every request succeeds: the stream of `spec` built,
registered and, when its status is `started`, running. -/
def World.rebuilt (w : World CT) (spec : EventStreamSpec CT) : World CT :=
  let registered := (w.newEventStream spec).1.addStream w.heap.length
  if spec.status = some .started then registered.setActive w.heap.length true else registered

/-- The world after an `UpsertStream` whose every request succeeds. -/
def World.upserted (w : World CT) (esSpec : EventStreamSpec CT) : World CT :=
  match (w.upsertTarget esSpec).2 with
  | none => (w.upsertSpec (w.upsertTarget esSpec).1).1.rebuilt (w.upsertTarget esSpec).1
  | some old =>
      ((w.upsertSpec (w.upsertTarget esSpec).1).1.setActive old false).rebuilt
        (w.upsertTarget esSpec).1

namespace World

variable {w : World CT}

@[simp]
theorem eventStreams_rebuilt (spec : EventStreamSpec CT) :
    (w.rebuilt spec).eventStreams = w.eventStreams := by
  unfold rebuilt
  split <;> simp

theorem WellFormed.registered_rebuilt (wellFormed : w.WellFormed) (spec : EventStreamSpec CT) (id : String) :
    (w.rebuilt spec).registered id =
      if id = spec.getID then some ⟨spec, spec.status = some .started⟩ else w.registered id := by
  have registered :
      ((w.newEventStream spec).1.addStream w.heap.length).streams.lookup spec.getID =
        some w.heap.length := by
    simp [streams_addStream (w.getElem?_newEventStream_length spec)]
  unfold rebuilt
  split
  case isTrue started =>
    rw [((wellFormed.newEventStream spec).addStream _).registered_setActive registered,
      wellFormed.registered_register]
    split <;> simp_all
  case isFalse notStarted => rw [wellFormed.registered_register]

@[simp]
theorem eventStreams_upserted (esSpec : EventStreamSpec CT) :
    (w.upserted esSpec).eventStreams = (w.eventStreams.upsert (w.upsertTarget esSpec).1).1 := by
  unfold upserted
  split <;> simp

/-- A successful upsert registers the stream of the spec it stores under that spec's ID, and
leaves every other entry. -/
theorem registered_upserted (wellFormed : w.WellFormed) (esSpec : EventStreamSpec CT)
    (id : String) :
    (w.upserted esSpec).registered id =
      if id = (w.upsertTarget esSpec).1.getID then
        some ⟨(w.upsertTarget esSpec).1, (w.upsertTarget esSpec).1.status = some .started⟩
      else w.registered id := by
  have replaced := w.lookup_upsertTarget esSpec
  have persisted : (w.upsertSpec (w.upsertTarget esSpec).1).1.WellFormed := ⟨wellFormed.keyed⟩
  unfold upserted
  split
  case h_1 => exact persisted.registered_rebuilt _ id
  case h_2 old existing =>
    rw [(persisted.setActive old false).registered_rebuilt]
    split
    case isTrue => rfl
    case isFalse different =>
      rw [persisted.registered_setActive (replaced.trans existing), if_neg different]
      rfl

end World

/-- An `UpsertStream` that returns nil leaves the world `upserted` describes, whatever it
reports as `isNew`. -/
theorem run_upsertStream_of_ok (esSpec : EventStreamSpec CT) {w : World CT} (plan : List Bool)
    {isNew : Bool} (succeeded : ((upsertStream esSpec).run plan w).2 = .ok (isNew, .ok ())) :
    ((upsertStream esSpec).run plan w).1 = w.upserted esSpec := by
  refine @run_of_wp CT _ _ (fun w' result _ => ∀ isNew, result = .ok (isNew, .ok ()) →
    w' = w.upserted esSpec) w ?_ plan isNew succeeded
  rw [upsertStream_wp, upsertSpec_wp]
  unfold World.upserted
  generalize w.upsertTarget esSpec = target
  obtain ⟨spec, existing⟩ := target
  dsimp only
  split
  · simp
  · refine ⟨by simp, by simp, ?_⟩
    rw [reInit_wp]
    cases existing <;> simp only [World.rebuilt] <;> split <;> simp

/-- A spec for the stream of `oneStreamWorld` with a new initial sequence ID. -/
def restartedSpec : EventStreamSpec Unit := ⟨some "a", none, some "9", none⟩

/-- An `UpsertStream` that returns nil has persisted the spec it stores, with the default status
applied, and registered under its ID a new stream built from it, running exactly when its status
is `started`; every other registry entry is unchanged. -/
theorem upsertStream_ok_postcondition (esSpec : EventStreamSpec CT) {w : World CT}
    (wellFormed : w.WellFormed) (plan : List Bool) {isNew : Bool}
    (succeeded : ((upsertStream esSpec).run plan w).2 = .ok (isNew, .ok ())) :
    ((upsertStream esSpec).run plan w).1.eventStreams.find? (w.upsertTarget esSpec).1.getID =
      some (w.upsertTarget esSpec).1 ∧
    ∀ id, ((upsertStream esSpec).run plan w).1.registered id =
      if id = (w.upsertTarget esSpec).1.getID then
        some ⟨(w.upsertTarget esSpec).1, (w.upsertTarget esSpec).1.status = some .started⟩
      else w.registered id := by
  rw [run_upsertStream_of_ok esSpec plan succeeded]
  exact ⟨by simp, registered_upserted wellFormed esSpec⟩

theorem upsertStream_ok_postcondition_oneStream :
    oneStreamWorld.WellFormed ∧
    ((upsertStream restartedSpec).run [] oneStreamWorld).2 = .ok (false, .ok ()) ∧
    (((upsertStream restartedSpec).run [] oneStreamWorld).1.eventStreams.find?
        (oneStreamWorld.upsertTarget restartedSpec).1.getID =
      some (oneStreamWorld.upsertTarget restartedSpec).1 ∧
    ∀ id, ((upsertStream restartedSpec).run [] oneStreamWorld).1.registered id =
      if id = (oneStreamWorld.upsertTarget restartedSpec).1.getID then
        some ⟨(oneStreamWorld.upsertTarget restartedSpec).1,
          (oneStreamWorld.upsertTarget restartedSpec).1.status = some .started⟩
      else oneStreamWorld.registered id) :=
  ⟨WellFormed.single _ _, rfl,
    upsertStream_ok_postcondition restartedSpec (WellFormed.single _ _) [] rfl⟩

/-- Running `UpsertStream` twice on a spec that names its ID leaves the persisted table and what
is registered under each ID, its spec and whether it runs, as running it once. -/
theorem upsertStream_twice_same_state (esSpec : EventStreamSpec CT) (named : esSpec.id ≠ none)
    (nonEmpty : esSpec.getID.length ≠ 0) {w : World CT} (wellFormed : w.WellFormed)
    (plan plan' : List Bool) {isNew isNew' : Bool}
    (first : ((upsertStream esSpec).run plan w).2 = .ok (isNew, .ok ()))
    (second : ((upsertStream esSpec).run plan' ((upsertStream esSpec).run plan w).1).2 =
      .ok (isNew', .ok ())) :
    ((upsertStream esSpec).run plan' ((upsertStream esSpec).run plan w).1).1.eventStreams =
        ((upsertStream esSpec).run plan w).1.eventStreams ∧
      ∀ id, ((upsertStream esSpec).run plan' ((upsertStream esSpec).run plan w).1).1.registered id =
        ((upsertStream esSpec).run plan w).1.registered id := by
  have once := run_upsertStream_of_ok esSpec plan first
  have onceWellFormed : (w.upserted esSpec).WellFormed := once ▸ wellFormed.run _ plan
  rw [once] at second ⊢
  rw [run_upsertStream_of_ok esSpec plan' second]
  have target (w' : World CT) : (w'.upsertTarget esSpec).1 = defaultStatus esSpec := by
    rw [World.upsertTarget, if_neg (not_or.mpr ⟨named, nonEmpty⟩)]
  refine ⟨?_, fun id => ?_⟩
  · rw [eventStreams_upserted, eventStreams_upserted, target, target, SpecTable.upsert_upsert]
  · rw [registered_upserted onceWellFormed, registered_upserted wellFormed, target, target]
    split <;> simp_all

theorem upsertStream_twice_same_state_oneStream :
    restartedSpec.id ≠ none ∧ restartedSpec.getID.length ≠ 0 ∧ oneStreamWorld.WellFormed ∧
    ((upsertStream restartedSpec).run [] oneStreamWorld).2 = .ok (false, .ok ()) ∧
    ((upsertStream restartedSpec).run [] ((upsertStream restartedSpec).run [] oneStreamWorld).1).2 =
      .ok (false, .ok ()) ∧
    (((upsertStream restartedSpec).run [] ((upsertStream restartedSpec).run [] oneStreamWorld).1).1.eventStreams =
        ((upsertStream restartedSpec).run [] oneStreamWorld).1.eventStreams ∧
      ∀ id, ((upsertStream restartedSpec).run []
          ((upsertStream restartedSpec).run [] oneStreamWorld).1).1.registered id =
        ((upsertStream restartedSpec).run [] oneStreamWorld).1.registered id) :=
  ⟨by decide, by decide, WellFormed.single _ _, rfl, rfl,
    upsertStream_twice_same_state restartedSpec (by decide) (by decide) (WellFormed.single _ _) [] []
      rfl rfl⟩

end FireflyCommon.EventStreams
