import FireflyCommon.EventStreams.Agreement
import Mathlib.Logic.Relation

set_option autoImplicit false

/-!
# Concurrent calls

Each call in flight is a thread, held as the rest of its program. A step runs one atomic call of
one thread, its request succeeding or failing: `esm.mux` is held across each registry access
only, never across a persistence call or a stream step, so any order of the threads' calls can
happen. Running one thread to completion before the next starts is one of these orders
(`reaches_run`), and every step keeps registry entries naming their own streams.
-/

namespace FireflyCommon.EventStreams

open Prog Relation

variable {CT : Type}

/-- The world and the calls in flight. -/
structure Threads (CT : Type) where
  world : World CT
  threads : List (Prog CT Unit)

/-- One atomic call of one thread. -/
inductive Step : Threads CT → Threads CT → Prop
  | call {world : World CT} {threads : List (Prog CT Unit)} (index : Nat)
      {thread next : Prog CT Unit} (ok : Bool) {world' : World CT} :
      threads[index]? = some thread → thread.step ok world = some (world', next) →
      Step ⟨world, threads⟩ ⟨world', threads.set index next⟩

/-- The states some interleaving reaches. -/
def Reaches : Threads CT → Threads CT → Prop := ReflTransGen Step

/-- A finished thread's result; `none` while it still has calls to make. -/
def Prog.result? {α : Type} : Prog CT α → Option (Except Error α)
  | .ret value => some (.ok value)
  | .fail error => some (.error error)
  | _ => none

/-- A finished program with this result. -/
def Prog.finished {α : Type} : Except Error α → Prog CT α
  | .ok value => .ret value
  | .error error => .fail error

/-- Run the threads in the order a schedule gives: which thread takes the next step, and whether
its request succeeds. A step of a finished or missing thread is skipped. -/
def schedule : List (Nat × Bool) → Threads CT → Threads CT
  | [], state => state
  | (index, ok) :: rest, state =>
      match state.threads[index]? with
      | some thread =>
          match thread.step ok state.world with
          | some (world', next) => schedule rest ⟨world', state.threads.set index next⟩
          | none => schedule rest state
      | none => schedule rest state

theorem reaches_schedule (order : List (Nat × Bool)) (state : Threads CT) :
    Reaches state (schedule order state) := by
  induction order generalizing state with
  | nil => exact ReflTransGen.refl
  | cons choice rest inductionHypothesis =>
      obtain ⟨index, ok⟩ := choice
      simp only [schedule]
      split
      case h_1 thread found =>
        split
        case h_1 world' next stepped =>
          exact ReflTransGen.head (Step.call index ok found stepped) (inductionHypothesis _)
        case h_2 => exact inductionHypothesis _
      case h_2 => exact inductionHypothesis _

/-- A thread among others runs the first part of its program to completion while the others
wait, one of the interleavings. -/
theorem reaches_bind_run {α : Type} (p : Prog CT α) (k : α → Prog CT Unit) (plan : List Bool)
    (w : World CT) (threads : List (Prog CT Unit)) (index : Nat) (found : index < threads.length) :
    Reaches ⟨w, threads.set index (p.bind k)⟩
      ⟨(p.run plan w).1, threads.set index ((Prog.finished (p.run plan w).2).bind k)⟩ := by
  induction p generalizing w plan with
  | ret value => exact ReflTransGen.refl
  | fail error => exact ReflTransGen.refl
  | access call next inductionHypothesis =>
      refine ReflTransGen.head (Step.call index true (List.getElem?_set_self (by simpa)) rfl) ?_
      rw [List.set_set]
      exact inductionHypothesis _ plan _
  | request call next inductionHypothesis =>
      refine ReflTransGen.head
        (Step.call index (plan.headD true) (List.getElem?_set_self (by simpa)) rfl) ?_
      rw [List.set_set]
      exact inductionHypothesis _ plan.tail _

theorem reaches_run_at (p : Prog CT Unit) (plan : List Bool) (w : World CT)
    (threads : List (Prog CT Unit)) (index : Nat) (found : index < threads.length) :
    Reaches ⟨w, threads.set index p⟩
      ⟨(p.run plan w).1, threads.set index (Prog.finished (p.run plan w).2)⟩ := by
  simpa only [Prog.bind_ret] using reaches_bind_run p .ret plan w threads index found

/-- Serving a call to completion is one interleaving: the one where its thread runs alone. -/
theorem reaches_run (p : Prog CT Unit) (plan : List Bool) (w : World CT) :
    Reaches ⟨w, [p]⟩ ⟨(p.run plan w).1, [Prog.finished (p.run plan w).2]⟩ :=
  reaches_run_at p plan w [p] 0 (by simp)

/-- Two specs for the ID `"a"` that differ in their initial sequence ID. -/
def firstSpec : EventStreamSpec Unit := ⟨some "a", some .started, some "1", none⟩

/-- The second of the two. -/
def secondSpec : EventStreamSpec Unit := ⟨some "a", some .started, some "2", none⟩

/-- Two `UpsertStream` calls for `"a"` in flight on a manager with no streams. -/
def racingUpserts : Threads Unit :=
  ⟨.boot .empty [], [(Operation.upsertStream firstSpec).prog, (Operation.upsertStream secondSpec).prog]⟩

/-- The first upsert looks up `"a"`, validates and persists its spec; the second runs to
completion; the first then builds, registers and starts its stream. -/
def racingOrder : List (Nat × Bool) :=
  List.replicate 3 (0, true) ++ List.replicate 7 (1, true) ++ List.replicate 4 (0, true)

/-- Every registry entry names its own stream in every state any interleaving reaches. -/
theorem WellFormed.reaches {state state' : Threads CT} (reached : Reaches state state')
    (wellFormed : state.world.WellFormed) : state'.world.WellFormed := by
  induction reached with
  | refl => exact wellFormed
  | tail _ last inductionHypothesis =>
      obtain ⟨_, _, _, stepped⟩ := last
      exact inductionHypothesis.step stepped

theorem wellFormed_reaches_racingUpserts :
    Reaches racingUpserts (schedule racingOrder racingUpserts) ∧ racingUpserts.world.WellFormed ∧
    (schedule racingOrder racingUpserts).world.WellFormed :=
  ⟨reaches_schedule _ _, World.WellFormed.boot _ _,
    WellFormed.reaches (reaches_schedule racingOrder racingUpserts) (World.WellFormed.boot _ _)⟩

end FireflyCommon.EventStreams
