import FireflyCommon.EventStreams.World

set_option autoImplicit false

/-!
# Manager code as programs over atomic calls

Each manager function is written as a `Prog`: a tree of the atomic calls it makes, in order.
An `Access` is a step that cannot fail: a lookup or write of `esm.streams` under `esm.mux`, a
read or write of a stream's fields, or `runtime.NewID()`. A `Request` is a persistence call or
a stream step, and can fail; a failed request changes nothing.

The same tree has two semantics. `Prog.run` runs one call to completion, the `plan` saying which
requests succeed (an exhausted plan succeeds). `Prog.step` takes one atomic step, which is what
the interleaving semantics of concurrent calls is built from. `Prog.wp` is the weakest
precondition over every plan, and `run_of_wp` makes it sound.
-/

namespace FireflyCommon.EventStreams

variable {CT : Type}

instance exceptDecidableEq {ε α : Type} [DecidableEq ε] [DecidableEq α] :
    DecidableEq (Except ε α)
  | .ok left, .ok right => decidable_of_iff (left = right) ⟨congrArg _, Except.ok.inj⟩
  | .error left, .error right => decidable_of_iff (left = right) ⟨congrArg _, Except.error.inj⟩
  | .ok _, .error _ => isFalse Except.noConfusion
  | .error _, .ok _ => isFalse Except.noConfusion

/-- The steps that cannot fail. -/
inductive Access where
  | getStream (id : String)
  | addStream (es : Nat)
  | removeStream (id : String)
  | listStreams
  | newID
  | readStatus (es : Nat)
  | readStream (es : Nat)
  | setInitialSequenceID (es : Nat) (sequenceID : String)
  | ensureActive (es : Nat)
  deriving DecidableEq, Repr

namespace Access

/-- What an access returns. -/
def Result (CT : Type) : Access → Type
  | .getStream _ => Option Nat
  | .listStreams => List Nat
  | .newID => String
  | .readStatus _ => Option EventStreamStatus
  | .readStream _ => Option (EventStream CT)
  | _ => Unit

/-- An access's effect and answer. -/
@[simp]
def exec : (access : Access) → World CT → World CT × access.Result CT
  | .getStream id, w => (w, w.streams.lookup id)
  | .addStream es, w => (w.addStream es, ())
  | .removeStream id, w => (w.removeStream id, ())
  | .listStreams, w => (w, w.streams.entries.map Sigma.snd)
  | .newID, w => (w, w.newID)
  | .readStatus es, w => (w, w.status? es)
  | .readStream es, w => (w, w.heap[es]?)
  | .setInitialSequenceID es sequenceID, w => (w.setInitialSequenceID es sequenceID, ())
  | .ensureActive es, w => (w.setActive es true, ())

end Access

/-- The calls that can fail. -/
inductive Request (CT : Type) where
  | validateStream (spec : EventStreamSpec CT)
  | eventStreamsGetMany (skip limit : Nat)
  | eventStreamsGetByID (id : String)
  | eventStreamsUpsert (spec : EventStreamSpec CT)
  | eventStreamsDelete (id : String)
  | eventStreamsUpdateSparse (sparse : EventStreamSpec CT)
  | checkpointsDeleteMany (id : String)
  | initEventStream (spec : EventStreamSpec CT)
  | suspend (es : Nat)
  | start (es : Nat)
  | stop (es : Nat)
  | delete (es : Nat)
  deriving DecidableEq, Repr

namespace Request

/-- What a request returns when it succeeds. -/
def Result : Request CT → Type
  | .eventStreamsGetMany _ _ => List (EventStreamSpec CT)
  | .eventStreamsGetByID _ => Option (EventStreamSpec CT)
  | .eventStreamsUpsert _ => Bool
  | .initEventStream _ => Nat
  | _ => Unit

/-- The call a failed request's error comes from. -/
@[simp]
def origin : Request CT → Origin
  | .validateStream _ => .validateStream
  | .eventStreamsGetMany _ _ => .eventStreamsGetMany
  | .eventStreamsGetByID _ => .eventStreamsGetByID
  | .eventStreamsUpsert _ => .eventStreamsUpsert
  | .eventStreamsDelete _ => .eventStreamsDelete
  | .eventStreamsUpdateSparse _ => .eventStreamsUpdateSparse
  | .checkpointsDeleteMany _ => .checkpointsDeleteMany
  | .initEventStream _ => .initEventStream
  | .suspend _ => .suspend
  | .start _ => .start
  | .stop _ => .stop
  | .delete _ => .delete

/-- Modelled from the spec: the persistence calls (§4.1) and the stream steps (§4.4), whose code
is not in the source. A request's effect and answer when it succeeds: `suspend` ends the
stream's tasks, `start` starts them, and `stop` and `delete` end them and record the new
status. -/
@[simp]
def exec : (request : Request CT) → World CT → World CT × request.Result
  | .validateStream _, w => (w, ())
  | .eventStreamsGetMany skip limit, w => (w, w.eventStreams.getMany skip limit)
  | .eventStreamsGetByID id, w => (w, w.eventStreams.find? id)
  | .eventStreamsUpsert spec, w => w.upsertSpec spec
  | .eventStreamsDelete id, w => (w.deleteSpec id, ())
  | .eventStreamsUpdateSparse sparse, w => (w.updateSparse sparse, ())
  | .checkpointsDeleteMany id, w => (w.deleteCheckpoints id, ())
  | .initEventStream spec, w => w.newEventStream spec
  | .suspend es, w => (w.setActive es false, ())
  | .start es, w => (w.setActive es true, ())
  | .stop es, w => (w.recordStatus es .stopped, ())
  | .delete es, w => (w.recordStatus es .deleted, ())

/-- A request's effect and answer when it succeeds (`ok`) or fails. -/
def answer (request : Request CT) (ok : Bool) (w : World CT) :
    World CT × Except Error request.Result :=
  if ok then ((request.exec w).1, .ok (request.exec w).2) else (w, .error (.failed request.origin))

end Request

/-- A manager function as the tree of the calls it makes. -/
inductive Prog (CT : Type) (α : Type) : Type where
  | ret (value : α)
  | fail (error : Error)
  | access (call : Access) (next : call.Result CT → Prog CT α)
  | request (call : Request CT) (next : Except Error call.Result → Prog CT α)

namespace Prog

variable {α γ : Type}

/-- Sequencing: `p` and then `f` on its value; an error ends the program. -/
def bind : Prog CT α → (α → Prog CT γ) → Prog CT γ
  | .ret value, f => f value
  | .fail error, _ => .fail error
  | .access call next, f => .access call fun answer => (next answer).bind f
  | .request call next, f => .request call fun answer => (next answer).bind f

instance : Monad (Prog CT) where
  pure := .ret
  bind := bind

/-- Go's `if err != nil { return err }` after a call that returns an error. -/
def ofExcept : Except Error α → Prog CT α
  | .ok value => .ret value
  | .error error => .fail error

/-- Make a request, returning its error. -/
def perform (call : Request CT) : Prog CT call.Result := .request call ofExcept

/-- Make an access. -/
def ask (call : Access) : Prog CT (call.Result CT) := .access call .ret

/-- The program's error as a value: `err := f(); ...`. -/
def attempt : Prog CT α → Prog CT (Except Error α)
  | .ret value => .ret (.ok value)
  | .fail error => .ret (.error error)
  | .access call next => .access call fun answer => (next answer).attempt
  | .request call next => .request call fun answer => (next answer).attempt

/-- Recovery from an error: the handler runs on the program's error, after the calls the program
made before it. -/
def catchError (p : Prog CT α) (handler : Error → Prog CT α) : Prog CT α :=
  p.attempt.bind fun
    | .ok value => .ret value
    | .error error => handler error

instance : MonadExceptOf Error (Prog CT) where
  throw := .fail
  tryCatch := catchError

/-- Run to completion; the plan says which requests succeed. -/
def run : Prog CT α → List Bool → World CT → World CT × Except Error α
  | .ret value, _, w => (w, .ok value)
  | .fail error, _, w => (w, .error error)
  | .access call next, plan, w => (next (call.exec w).2).run plan (call.exec w).1
  | .request call next, plan, w =>
      (next (call.answer (plan.headD true) w).2).run plan.tail (call.answer (plan.headD true) w).1

/-- The requests a run makes, in order. -/
def requests : Prog CT α → List Bool → World CT → List (Request CT)
  | .ret _, _, _ => []
  | .fail _, _, _ => []
  | .access call next, plan, w => (next (call.exec w).2).requests plan (call.exec w).1
  | .request call next, plan, w =>
      call :: (next (call.answer (plan.headD true) w).2).requests plan.tail
        (call.answer (plan.headD true) w).1

/-- Weakest precondition: `post` holds of the world, the result and the requests made, after
every run, whichever requests fail. -/
def wp : Prog CT α → (World CT → Except Error α → List (Request CT) → Prop) → World CT → Prop
  | .ret value, post, w => post w (.ok value) []
  | .fail error, post, w => post w (.error error) []
  | .access call next, post, w => (next (call.exec w).2).wp post (call.exec w).1
  | .request call next, post, w =>
      (next (.error (.failed call.origin))).wp (fun w result made => post w result (call :: made)) w ∧
        (next (.ok (call.exec w).2)).wp (fun w result made => post w result (call :: made))
          (call.exec w).1

/-- One atomic step of a program that has not finished, its request succeeding when `ok`. -/
def step : Prog CT α → Bool → World CT → Option (World CT × Prog CT α)
  | .ret _, _, _ => none
  | .fail _, _, _ => none
  | .access call next, _, w => some ((call.exec w).1, next (call.exec w).2)
  | .request call next, ok, w => some ((call.answer ok w).1, next (call.answer ok w).2)

@[simp] theorem bind_eq (p : Prog CT α) (f : α → Prog CT γ) : p >>= f = p.bind f := rfl
@[simp] theorem pure_eq (value : α) : (pure value : Prog CT α) = .ret value := rfl
@[simp] theorem throw_eq (error : Error) : (throw error : Prog CT α) = .fail error := rfl

@[simp] theorem ret_bind (value : α) (f : α → Prog CT γ) : (ret value).bind f = f value := rfl

@[simp] theorem fail_bind (error : Error) (f : α → Prog CT γ) :
    (fail error : Prog CT α).bind f = .fail error := rfl

@[simp] theorem access_bind (call : Access) (next : call.Result CT → Prog CT α) (f : α → Prog CT γ) :
    (access call next).bind f = .access call fun answer => (next answer).bind f := rfl

@[simp] theorem request_bind (call : Request CT) (next : Except Error call.Result → Prog CT α)
    (f : α → Prog CT γ) :
    (request call next).bind f = .request call fun answer => (next answer).bind f := rfl

@[simp] theorem ofExcept_ok (value : α) : (ofExcept (.ok value) : Prog CT α) = .ret value := rfl

@[simp] theorem ofExcept_error (error : Error) :
    (ofExcept (.error error) : Prog CT α) = .fail error := rfl

@[simp] theorem ofExcept_bind (result : Except Error α) (f : α → Prog CT γ) :
    (ofExcept result).bind f = match result with | .ok value => f value | .error e => .fail e := by
  cases result <;> rfl

@[simp] theorem wp_ret (value : α) (post : World CT → Except Error α → List (Request CT) → Prop)
    (w : World CT) : (ret value).wp post w = post w (.ok value) [] := rfl

@[simp] theorem wp_fail (error : Error) (post : World CT → Except Error α → List (Request CT) → Prop)
    (w : World CT) : (fail error).wp post w = post w (.error error) [] := rfl

@[simp] theorem wp_access (call : Access) (next : call.Result CT → Prog CT α)
    (post : World CT → Except Error α → List (Request CT) → Prop) (w : World CT) :
    (access call next).wp post w = (next (call.exec w).2).wp post (call.exec w).1 := rfl

@[simp] theorem wp_request (call : Request CT) (next : Except Error call.Result → Prog CT α)
    (post : World CT → Except Error α → List (Request CT) → Prop) (w : World CT) :
    (request call next).wp post w =
      ((next (.error (.failed call.origin))).wp (fun w result made => post w result (call :: made)) w ∧
        (next (.ok (call.exec w).2)).wp (fun w result made => post w result (call :: made))
          (call.exec w).1) := rfl

theorem run_of_wp {p : Prog CT α} {post : World CT → Except Error α → List (Request CT) → Prop}
    {w : World CT} (holds : p.wp post w) (plan : List Bool) :
    post (p.run plan w).1 (p.run plan w).2 (p.requests plan w) := by
  induction p generalizing w plan post with
  | ret value => exact holds
  | fail error => exact holds
  | access call next inductionHypothesis => exact inductionHypothesis _ holds _
  | request call next inductionHypothesis =>
      simp only [run, requests, Request.answer]
      cases plan.headD true
      · exact inductionHypothesis _ holds.1 _
      · exact inductionHypothesis _ holds.2 _

theorem wp_mono {p : Prog CT α} {post post' : World CT → Except Error α → List (Request CT) → Prop}
    {w : World CT} (holds : p.wp post w)
    (weaker : ∀ w result made, post w result made → post' w result made) : p.wp post' w := by
  induction p generalizing w post post' with
  | ret value => exact weaker _ _ _ holds
  | fail error => exact weaker _ _ _ holds
  | access call next inductionHypothesis => exact inductionHypothesis _ holds weaker
  | request call next inductionHypothesis =>
      exact ⟨inductionHypothesis _ holds.1 fun w result made => weaker w result _,
        inductionHypothesis _ holds.2 fun w result made => weaker w result _⟩

theorem wp_bind (p : Prog CT α) (f : α → Prog CT γ)
    (post : World CT → Except Error γ → List (Request CT) → Prop) (w : World CT) :
    (p.bind f).wp post w ↔
      p.wp (fun w result made => match result with
        | .ok value => (f value).wp (fun w result rest => post w result (made ++ rest)) w
        | .error error => post w (.error error) made) w := by
  induction p generalizing w post with
  | ret value => simp [bind]
  | fail error => rfl
  | access call next inductionHypothesis => exact inductionHypothesis _ _ _
  | request call next inductionHypothesis =>
      simp only [request_bind, wp_request, inductionHypothesis, List.cons_append]

theorem wp_and {p : Prog CT α} {post post' : World CT → Except Error α → List (Request CT) → Prop}
    {w : World CT} (holds : p.wp post w) (holds' : p.wp post' w) :
    p.wp (fun w result made => post w result made ∧ post' w result made) w := by
  induction p generalizing w post post' with
  | ret value => exact ⟨holds, holds'⟩
  | fail error => exact ⟨holds, holds'⟩
  | access call next inductionHypothesis => exact inductionHypothesis _ holds holds'
  | request call next inductionHypothesis =>
      exact ⟨inductionHypothesis _ holds.1 holds'.1, inductionHypothesis _ holds.2 holds'.2⟩

/-- A property of the world that every call keeps holds after every run. -/
theorem wp_of_invariant {invariant : World CT → Prop}
    (access : ∀ (call : Access) w, invariant w → invariant (call.exec w).1)
    (request : ∀ (call : Request CT) w, invariant w → invariant (call.exec w).1)
    (p : Prog CT α) {w : World CT} (holds : invariant w) :
    p.wp (fun w _ _ => invariant w) w := by
  induction p generalizing w with
  | ret value => exact holds
  | fail error => exact holds
  | access call next inductionHypothesis => exact inductionHypothesis _ (access call w holds)
  | request call next inductionHypothesis =>
      exact ⟨inductionHypothesis _ holds, inductionHypothesis _ (request call w holds)⟩

/-- A property of the world that every call keeps holds after every step. -/
theorem step_of_invariant {invariant : World CT → Prop}
    (access : ∀ (call : Access) w, invariant w → invariant (call.exec w).1)
    (request : ∀ (call : Request CT) w, invariant w → invariant (call.exec w).1)
    {p next : Prog CT α} {ok : Bool} {w w' : World CT} (stepped : p.step ok w = some (w', next))
    (holds : invariant w) : invariant w' := by
  cases p with
  | ret value => cases stepped
  | fail error => cases stepped
  | access call k =>
      cases stepped
      exact access call w holds
  | request call k =>
      cases stepped
      cases ok
      · exact holds
      · exact request call w holds

@[simp] theorem wp_attempt (p : Prog CT α)
    (post : World CT → Except Error (Except Error α) → List (Request CT) → Prop) (w : World CT) :
    p.attempt.wp post w ↔ p.wp (fun w result made => post w (.ok result) made) w := by
  induction p generalizing w post with
  | ret value => rfl
  | fail error => rfl
  | access call next inductionHypothesis => exact inductionHypothesis _ _ _
  | request call next inductionHypothesis =>
      exact and_congr (inductionHypothesis _ _ _) (inductionHypothesis _ _ _)

theorem bind_assoc {β : Type} (p : Prog CT α) (f : α → Prog CT β) (g : β → Prog CT γ) :
    (p.bind f).bind g = p.bind fun value => (f value).bind g := by
  induction p with
  | ret value => rfl
  | fail error => rfl
  | access call next inductionHypothesis => simp only [access_bind, inductionHypothesis]
  | request call next inductionHypothesis => simp only [request_bind, inductionHypothesis]

theorem bind_ret (p : Prog CT α) : p.bind .ret = p := by
  induction p with
  | ret value => rfl
  | fail error => rfl
  | access call next inductionHypothesis => simp only [access_bind, inductionHypothesis]
  | request call next inductionHypothesis => simp only [request_bind, inductionHypothesis]

theorem run_attempt (p : Prog CT α) (plan : List Bool) (w : World CT) :
    p.attempt.run plan w = ((p.run plan w).1, .ok (p.run plan w).2) := by
  induction p generalizing plan w with
  | ret value => rfl
  | fail error => rfl
  | access call next inductionHypothesis => exact inductionHypothesis _ _ _
  | request call next inductionHypothesis => exact inductionHypothesis _ _ _

/-- With every request succeeding, a sequence runs its first part and then, on a value, the
rest. -/
theorem run_nil_bind {β : Type} (p : Prog CT α) (f : α → Prog CT β) (w : World CT) :
    (p.bind f).run [] w = match p.run [] w with
      | (w', .ok value) => (f value).run [] w'
      | (w', .error error) => (w', .error error) := by
  induction p generalizing w with
  | ret value => rfl
  | fail error => rfl
  | access call next inductionHypothesis => exact inductionHypothesis _ _
  | request call next inductionHypothesis => exact inductionHypothesis _ _

end Prog

end FireflyCommon.EventStreams
