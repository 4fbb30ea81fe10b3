import FireflyCommon.EventStreams.Isolation

set_option autoImplicit false

/-!
# What the calls in flight can write

`Prog.RequestsWithin allow p` says that every request `p` can still make passes `allow`. A
property of the world that every access keeps, and that every allowed request keeps when it
succeeds, then holds in every state any interleaving reaches (`Reaches.requestsWithin`): a
failed request writes nothing, and the rest of a thread makes only calls its whole program
could make.

Of the manager's own requests, only `Checkpoints().DeleteMany` touches the checkpoints, and only
`ResetStream` makes it, for its own stream: `DeleteStream` makes no checkpoint request for the
stream it deletes. The checkpoints a running stream's dispatcher writes as it delivers (spec
§4.4) are not the manager's requests and are not modelled. Of the rows, only
`EventStreams().Delete` removes one, and only `DeleteStream` makes it.
-/

namespace FireflyCommon.EventStreams

open Prog Relation

variable {CT : Type}

/-- Every request `p` can still make passes `allow`. -/
def Prog.RequestsWithin {α : Type} (allow : Request CT → Prop) : Prog CT α → Prop
  | .ret _ | .fail _ => True
  | .access _ next => ∀ answer, (next answer).RequestsWithin allow
  | .request call next => allow call ∧ ∀ answer, (next answer).RequestsWithin allow

namespace Prog

variable {α γ : Type} {allow : Request CT → Prop}

theorem RequestsWithin.bind {p : Prog CT α} {f : α → Prog CT γ} (first : p.RequestsWithin allow)
    (rest : ∀ value, (f value).RequestsWithin allow) : (p.bind f).RequestsWithin allow := by
  induction p with
  | ret value => exact rest value
  | fail error => trivial
  | access call next inductionHypothesis => exact fun answer => inductionHypothesis answer (first answer)
  | request call next inductionHypothesis =>
      exact ⟨first.1, fun answer => inductionHypothesis answer (first.2 answer)⟩

theorem RequestsWithin.attempt {p : Prog CT α} (within : p.RequestsWithin allow) :
    p.attempt.RequestsWithin allow := by
  induction p with
  | ret value => trivial
  | fail error => trivial
  | access call next inductionHypothesis => exact fun answer => inductionHypothesis answer (within answer)
  | request call next inductionHypothesis =>
      exact ⟨within.1, fun answer => inductionHypothesis answer (within.2 answer)⟩

theorem requestsWithin_ofExcept (result : Except Error α) :
    (ofExcept result : Prog CT α).RequestsWithin allow := by
  cases result <;> trivial

theorem requestsWithin_perform {call : Request CT} (allowed : allow call) :
    (perform call).RequestsWithin allow :=
  ⟨allowed, requestsWithin_ofExcept⟩

theorem requestsWithin_ask (call : Access) : (ask call : Prog CT _).RequestsWithin allow :=
  fun _ => trivial

theorem RequestsWithin.mono {allow' : Request CT → Prop} {p : Prog CT α}
    (within : p.RequestsWithin allow) (weaker : ∀ call, allow call → allow' call) :
    p.RequestsWithin allow' := by
  induction p with
  | ret value => trivial
  | fail error => trivial
  | access call next inductionHypothesis => exact fun answer => inductionHypothesis answer (within answer)
  | request call next inductionHypothesis =>
      exact ⟨weaker call within.1, fun answer => inductionHypothesis answer (within.2 answer)⟩

section

variable {invariant : World CT → Prop}
  (access : ∀ (call : Access) w, invariant w → invariant (call.exec w).1)
  (request : ∀ call w, allow call → invariant w → invariant (call.exec w).1)
include access request

/-- One step keeps the invariant, and the rest of the program makes only allowed requests. -/
theorem RequestsWithin.step {p next : Prog CT α} {ok : Bool} {w w' : World CT}
    (within : p.RequestsWithin allow) (stepped : p.step ok w = some (w', next))
    (holds : invariant w) : invariant w' ∧ next.RequestsWithin allow := by
  cases p with
  | ret value => cases stepped
  | fail error => cases stepped
  | access call k =>
      cases stepped
      exact ⟨access call w holds, within _⟩
  | request call k =>
      cases stepped
      refine ⟨?_, within.2 _⟩
      cases ok
      · exact holds
      · exact request call w within.1 holds

end

end Prog

section

variable {allow : Request CT → Prop} (invariant : World CT → Prop)
  (access : ∀ (call : Access) w, invariant w → invariant (call.exec w).1)
  (request : ∀ call w, allow call → invariant w → invariant (call.exec w).1)
include access request

/-- A property of the world kept by every access and by every request the threads can make
holds in every state an interleaving reaches, whichever requests fail. -/
theorem Reaches.requestsWithin {state state' : Threads CT} (reached : Reaches state state')
    (within : ∀ p ∈ state.threads, p.RequestsWithin allow) (holds : invariant state.world) :
    invariant state'.world ∧ ∀ p ∈ state'.threads, p.RequestsWithin allow := by
  induction reached with
  | refl => exact ⟨holds, within⟩
  | tail _ last inductionHypothesis =>
      obtain ⟨holds, within⟩ := inductionHypothesis
      cases last with
      | call index ok found stepped =>
          have kept := (within _ (List.getElem?_mem found)).step access request stepped holds
          exact ⟨kept.1, fun p member =>
            (List.mem_or_eq_of_mem_set member).elim (within p) fun same => same ▸ kept.2⟩

end

/-! ## The requests each method makes -/

/-- The requests an operation's method can make, read off its code: the persistence calls and
stream steps, with the arguments the code fixes. -/
def Operation.Makes : Operation CT → Request CT → Prop
  | .upsertStream _, .validateStream _ | .upsertStream _, .eventStreamsUpsert _
  | .upsertStream _, .suspend _ | .upsertStream _, .initEventStream _ => True
  | .startStream _, .start _ | .stopStream _, .stop _ => True
  | .resetStream _ _, .suspend _ | .resetStream _ _, .start _ => True
  | .resetStream id _, .checkpointsDeleteMany id' => id' = id
  | .resetStream id sequenceID, .eventStreamsUpdateSparse sparse =>
      sparse = .initialSequenceUpdate id sequenceID
  | .deleteStream _, .delete _ => True
  | .deleteStream id, .eventStreamsDelete id' => id' = id
  | _, _ => False

section

variable {esSpec : EventStreamSpec CT}

theorem requestsWithin_reInit (stored : EventStreamSpec CT) (existing : Option Nat) :
    (reInit stored existing).RequestsWithin (Operation.upsertStream esSpec).Makes := by
  unfold reInit
  simp only [bind_eq]
  split <;>
    refine RequestsWithin.bind (by first | exact requestsWithin_perform trivial | trivial) fun _ =>
      (requestsWithin_perform trivial).bind fun _ => (requestsWithin_ask _).bind fun _ =>
        (requestsWithin_ask _).bind fun _ => ?_ <;>
    split <;> first | exact requestsWithin_ask _ | trivial

theorem requestsWithin_upsertSpec :
    (upsertSpec esSpec).RequestsWithin (Operation.upsertStream esSpec).Makes := by
  unfold upsertSpec assignID
  simp only [bind_eq]
  refine RequestsWithin.bind (by split <;> exact (requestsWithin_ask _).bind fun _ => trivial)
    fun _ => ?_
  split
  · trivial
  · exact RequestsWithin.bind trivial fun _ => (requestsWithin_perform trivial).bind fun _ =>
      (requestsWithin_perform trivial).bind fun _ => trivial

end

/-- Each method makes only the requests `Operation.Makes` lists for it. -/
theorem Operation.prog_requestsWithin (operation : Operation CT) :
    operation.prog.RequestsWithin operation.Makes := by
  cases operation with
  | upsertStream esSpec =>
      refine RequestsWithin.bind (RequestsWithin.bind requestsWithin_upsertSpec.attempt
        fun result => ?_) fun _ => requestsWithin_ofExcept _
      cases result with
      | error => trivial
      | ok stored => exact (requestsWithin_reInit _ _).attempt.bind fun _ => trivial
  | startStream id | stopStream id =>
      refine (requestsWithin_ask _).bind fun found => ?_
      cases found
      · trivial
      · exact requestsWithin_perform trivial
  | deleteStream id =>
      refine (requestsWithin_ask _).bind fun found => ?_
      cases found
      · trivial
      · exact (requestsWithin_perform trivial).bind fun _ => (requestsWithin_perform (by exact rfl)).bind
          fun _ => requestsWithin_ask _
  | resetStream id sequenceID =>
      refine (requestsWithin_ask _).bind fun found => ?_
      cases found
      · trivial
      · refine (requestsWithin_perform trivial).bind fun _ =>
          (requestsWithin_perform (by exact rfl)).bind fun _ => (requestsWithin_ask _).bind fun _ =>
            (requestsWithin_perform (by exact rfl)).bind fun _ => (requestsWithin_ask _).bind fun _ => ?_
        split
        · exact requestsWithin_perform trivial
        · trivial

theorem Operation.makes_checkpointsDeleteMany {operation : Operation CT} {id : String}
    (made : operation.Makes (.checkpointsDeleteMany id)) :
    ∃ sequenceID, operation = .resetStream id sequenceID := by
  cases operation <;> simp only [Operation.Makes] at made
  subst made
  exact ⟨_, rfl⟩

theorem Operation.makes_eventStreamsDelete {operation : Operation CT} {id : String}
    (made : operation.Makes (.eventStreamsDelete id)) : operation = .deleteStream id := by
  cases operation <;> simp only [Operation.Makes] at made
  subst made
  rfl

/-- The threads of calls in flight make only requests some call of the list makes. -/
theorem requestsWithin_calls (calls : List (Operation CT)) :
    ∀ p ∈ calls.map Operation.prog,
      p.RequestsWithin fun call => ∃ operation ∈ calls, operation.Makes call := by
  simp only [List.mem_map]
  rintro _ ⟨operation, member, rfl⟩
  exact operation.prog_requestsWithin.mono fun call made => ⟨operation, member, made⟩

/-! ## Checkpoints -/

/-- Only `Checkpoints().DeleteMany` writes the checkpoints. -/
theorem Request.checkpoints_exec (call : Request CT) (w : World CT) :
    (call.exec w).1.checkpoints = w.checkpoints ∨ ∃ id, call = .checkpointsDeleteMany id ∧
      (call.exec w).1.checkpoints = w.checkpoints.filter (·.id ≠ id) := by
  cases call <;> simp

/-- The manager's own requests touch the checkpoints only through `ResetStream`. In any
interleaving of the manager's calls, whatever the answers, every request a thread can still make
leaves the checkpoints as they are, or is the `DeleteMany` for the ID of a `ResetStream` call:
no call of the manager writes a checkpoint, and `DeleteStream` deletes none. -/
theorem checkpoint_requests_only_from_reset {w : World CT} {calls : List (Operation CT)}
    {state : Threads CT} (reached : Reaches ⟨w, calls.map Operation.prog⟩ state) :
    ∀ p ∈ state.threads, p.RequestsWithin fun call =>
      (∀ w' : World CT, (call.exec w').1.checkpoints = w'.checkpoints) ∨
        ∃ id sequenceID, call = .checkpointsDeleteMany id ∧ .resetStream id sequenceID ∈ calls := by
  refine (Reaches.requestsWithin (fun _ : World CT => True) (fun _ _ _ => trivial)
    (fun _ _ _ _ => trivial) reached (fun p member => ?_) trivial).2
  refine (requestsWithin_calls calls p member).mono fun call ⟨operation, called, made⟩ => ?_
  by_cases cleared : ∃ id, call = .checkpointsDeleteMany id
  · obtain ⟨id, rfl⟩ := cleared
    obtain ⟨sequenceID, rfl⟩ := Operation.makes_checkpointsDeleteMany made
    exact .inr ⟨id, sequenceID, rfl, called⟩
  · exact .inl fun w' => (call.checkpoints_exec w').resolve_right fun ⟨id, same, _⟩ =>
      cleared ⟨id, same⟩

/-- `DeleteStream("b")` and `ResetStream("a", "5")` on a manager of the streams `"a"` and `"b"`,
where `"b"` has a checkpoint. -/
def deleteAndReset : List (Operation Unit) := [.deleteStream "b", .resetStream "a" "5"]

/-- The two calls taking turns until the delete is done, then the reset running to its end. -/
def deleteAndResetOrder : List (Nat × Bool) :=
  [(0, true), (1, true), (0, true), (1, true), (0, true), (1, true), (0, true)] ++
    List.replicate 4 (1, true)

theorem checkpoint_requests_only_from_reset_deleteAndReset :
    Reaches ⟨twoStreamWorld, deleteAndReset.map Operation.prog⟩
      ⟨twoStreamWorld, deleteAndReset.map Operation.prog⟩ ∧
    ∀ p ∈ deleteAndReset.map Operation.prog, p.RequestsWithin fun call =>
      (∀ w' : World Unit, (call.exec w').1.checkpoints = w'.checkpoints) ∨
        ∃ id sequenceID, call = .checkpointsDeleteMany id ∧ .resetStream id sequenceID ∈ deleteAndReset :=
  have reached : Reaches ⟨twoStreamWorld, deleteAndReset.map Operation.prog⟩
      ⟨twoStreamWorld, deleteAndReset.map Operation.prog⟩ := .refl
  ⟨reached, checkpoint_requests_only_from_reset reached⟩

/-! ## Rows -/

@[simp]
theorem Access.eventStreams_exec (call : Access) (w : World CT) :
    (call.exec w).1.eventStreams = w.eventStreams := by
  cases call <;> simp [World.removeStream]

/-- Only `EventStreams().Delete` removes a row: every other request keeps a row of each ID. -/
theorem Request.find?_exec_ne_none {call : Request CT} {w : World CT} {id : String}
    (notDeleted : call ≠ .eventStreamsDelete id) (persisted : w.eventStreams.find? id ≠ none) :
    (call.exec w).1.eventStreams.find? id ≠ none := by
  cases call with
  | eventStreamsUpsert spec =>
      simp only [Request.exec, World.eventStreams_upsertSpec, SpecTable.find?_upsert]
      split <;> simp [persisted]
  | eventStreamsDelete deleted =>
      have different : deleted ≠ id := fun same => notDeleted (same ▸ rfl)
      simpa [SpecTable.find?_delete, different] using persisted
  | eventStreamsUpdateSparse sparse =>
      simp only [Request.exec, World.updateSparse_eventStreams, SpecTable.find?_updateSparse]
      split <;> simp [persisted]
  | stop es | delete es =>
      simp only [Request.exec, World.recordStatus_eventStreams]
      split
      · rw [SpecTable.find?_updateSparse]
        split <;> simp [persisted]
      · exact persisted
  | _ => simpa using persisted

/-- No persisted stream is lost but by `DeleteStream`. Under any interleaving of the manager's
calls, whichever requests fail, an ID with a row still has one unless a `DeleteStream` call
names it. -/
theorem rows_deleted_only_by_deleteStream {w : World CT} {calls : List (Operation CT)}
    {state : Threads CT} (reached : Reaches ⟨w, calls.map Operation.prog⟩ state) {id : String}
    (persisted : w.eventStreams.find? id ≠ none) (unnamed : .deleteStream id ∉ calls) :
    state.world.eventStreams.find? id ≠ none := by
  refine (Reaches.requestsWithin (fun w' : World CT => w'.eventStreams.find? id ≠ none)
    (fun call w persisted => by simpa only [Access.eventStreams_exec] using persisted)
    (fun call _ ⟨operation, called, made⟩ persisted => Request.find?_exec_ne_none ?_ persisted)
    reached (requestsWithin_calls calls) persisted).1
  rintro rfl
  exact unnamed (Operation.makes_eventStreamsDelete made ▸ called)

theorem rows_deleted_only_by_deleteStream_deleteAndReset :
    Reaches ⟨twoStreamWorld, deleteAndReset.map Operation.prog⟩
      (schedule deleteAndResetOrder ⟨twoStreamWorld, deleteAndReset.map Operation.prog⟩) ∧
    twoStreamWorld.eventStreams.find? "a" ≠ none ∧ .deleteStream "a" ∉ deleteAndReset ∧
    (schedule deleteAndResetOrder ⟨twoStreamWorld, deleteAndReset.map Operation.prog⟩).world.eventStreams.find?
      "a" ≠ none := by
  have reached := reaches_schedule deleteAndResetOrder ⟨twoStreamWorld, deleteAndReset.map Operation.prog⟩
  have persisted : twoStreamWorld.eventStreams.find? "a" ≠ none := by decide
  have unnamed : .deleteStream "a" ∉ deleteAndReset := by simp [deleteAndReset]
  exact ⟨reached, persisted, unnamed, rows_deleted_only_by_deleteStream reached persisted unnamed⟩

end FireflyCommon.EventStreams
