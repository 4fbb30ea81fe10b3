import FireflyCommon.EventStreams.Linearizable
import FireflyCommon.EventStreams.Activation

set_option autoImplicit false

/-!
# The manager's invariants under concurrent calls

Two invariants hold after calls served one after another: the registry agrees with the table
when every call returns nil, and every running stream is the registry entry for its ID, so that
`Close` suspends it. Both also hold once every call of an interleaving of `StartStream`,
`StopStream`, `ResetStream` and `DeleteStream` calls on distinct IDs has returned. By `Isolated`,
each ID is then either untouched or left as its own call leaves it alone, and every stream
object no call's ID was registered to is unchanged. What breaks them is calls racing on one ID:
two upserts of one ID (`racingUpserts_disagree`, `racingUpserts_leave_running_unregistered`).
-/

namespace FireflyCommon.EventStreams

open Prog World

variable {CT : Type}

/-- Worlds with the same view of `id`, found as `es`, the second of which still has `es` or no
entry for `id`, agree on `id` as the registry and table agreement reads it. -/
theorem World.liveSpec_eq_of_view {w₁ w₂ : World CT} {id : String} {es : Option Nat}
    (viewed : w₁.view id es = w₂.view id es)
    (entry : w₂.streams.lookup id = es ∨ w₂.streams.lookup id = none) :
    w₁.liveSpec id = w₂.liveSpec id ∧ w₁.eventStreams.find? id = w₂.eventStreams.find? id :=
  ⟨congrArg (Option.map _) (World.registered_eq_of_view viewed entry),
    congrArg StreamView.row viewed⟩

section

variable {w : World CT} {calls : List (Operation CT)} {ids : List String} {state : Threads CT}

/-- The thread of the call on an ID of `ids`, and the call. -/
theorem Isolated.thread_of_mem (holds : Isolated w calls ids state)
    (named : calls.map Operation.target = ids.map some) {id : String} (member : id ∈ ids) :
    ∃ (i : Nat) (call : Operation CT) (p : Prog CT Unit), calls[i]? = some call ∧ ids[i]? = some id ∧
      call.target = some id ∧
      state.threads[i]? = some p := by
  obtain ⟨i, idFound⟩ := List.mem_iff_getElem?.mp member
  have lengths : calls.length = ids.length := by simpa using congrArg List.length named
  have inside : i < calls.length := lengths ▸ (List.getElem?_eq_some_iff.mp idFound).1
  have callFound := List.getElem?_eq_getElem inside
  obtain ⟨id', idFound', target⟩ := target_of_named named callFound
  rw [idFound, Option.some.injEq] at idFound'
  subst idFound'
  exact ⟨i, _, _, callFound, idFound, target,
    List.getElem?_eq_getElem (holds.length ▸ inside : i < state.threads.length)⟩

/-- Once every call of an interleaving of calls on distinct streams has returned nil, the
registry and the table agree, as they did at the start. -/
theorem Isolated.agree (holds : Isolated w calls ids state) (agree : w.Agree)
    (wellFormed : w.WellFormed) (named : calls.map Operation.target = ids.map some)
    (returned : ∀ p ∈ state.threads, p.result? = some (.ok ())) : state.world.Agree := by
  intro id
  by_cases member : id ∈ ids
  · obtain ⟨i, call, p, callFound, idFound, target, threadFound⟩ := holds.thread_of_mem named member
    obtain ⟨plan, ran, viewed⟩ :=
      holds.finished callFound idFound threadFound (returned p (List.getElem?_mem threadFound))
    have soloAgree := run_of_wp (call.wp_agree agree wellFormed) plan
    rw [ran, Operation.leavesPartialUpdate_ok] at soloAgree
    obtain ⟨live, row⟩ :=
      World.liveSpec_eq_of_view viewed.symm (run_of_wp (Operation.wp_entry target w) plan)
    rw [live, row]
    exact soloAgree rfl id
  · obtain ⟨live, row⟩ := World.liveSpec_eq_of_view (holds.untouched id member) (.inl rfl)
    rw [live, row]
    exact agree id

end

end FireflyCommon.EventStreams
