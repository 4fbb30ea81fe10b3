import FireflyCommon.EventStreams.Persistence
import Mathlib.Data.List.MinMax
import Mathlib.Order.Nat

set_option autoImplicit false

/-!
# The manager's world

What the manager's calls read and write: the registry `esm.streams`, every stream object built
so far (a stream is named by its position in `heap`, so that two threads can hold the same
stream), and the two persisted tables. Each operation here is the effect of one atomic call;
`Prog` strings them together.

`WellFormed` holds of every world any call can reach: each registry entry names a stream that
exists, under that stream's own ID.
-/

namespace FireflyCommon.EventStreams

variable {CT : Type}

/-- The registry, the stream objects and the persisted tables. -/
structure World (CT : Type) where
  streams : AList (fun _ : String => Nat)
  heap : List (EventStream CT)
  eventStreams : SpecTable CT
  checkpoints : List EventStreamCheckpoint

namespace World

/-- The world of a manager built on a persisted table, before `initialize`. -/
def boot (eventStreams : SpecTable CT) (checkpoints : List EventStreamCheckpoint) : World CT :=
  ⟨∅, [], eventStreams, checkpoints⟩

/-- A manager with one stream, persisted and registered: what `initialize` builds from a table
of one row. -/
def single (stream : EventStream CT) (checkpoints : List EventStreamCheckpoint) : World CT :=
  ⟨AList.insert stream.spec.getID 0 ∅, [stream], ⟨[stream.spec], List.nodup_singleton _⟩,
    checkpoints⟩

/-- The stream registered under `id`, if any. -/
def registered (w : World CT) (id : String) : Option (EventStream CT) :=
  (w.streams.lookup id).bind fun es => w.heap[es]?

/-- `addStream`: `esm.streams[es.spec.GetID()] = es`. -/
def addStream (w : World CT) (es : Nat) : World CT :=
  match w.heap[es]? with
  | some stream => { w with streams := w.streams.insert stream.spec.getID es }
  | none => w

/-- `removeStream`: `delete(esm.streams, id)`. -/
def removeStream (w : World CT) (id : String) : World CT :=
  { w with streams := w.streams.erase id }

/-- The IDs in use: the registry's keys and the persisted rows' IDs. -/
def usedIDs (w : World CT) : List String :=
  w.streams.keys ++ w.eventStreams.rows.map EventStreamSpec.getID

/-- Modelled from the spec: `Runtime.NewID` returns a new unique ID. Here it is one
longer than every ID in use, so unique by construction. -/
def newID (w : World CT) : String :=
  ⟨List.replicate ((w.usedIDs.map String.length).foldr max ⊥ + 1) 'x'⟩

theorem length_lt_newID_length (w : World CT) {id : String} (used : id ∈ w.usedIDs) :
    id.length < w.newID.length := by
  have bound : id.length ≤ (w.usedIDs.map String.length).foldr max ⊥ :=
    List.le_max_of_le (List.mem_map_of_mem _ used) le_rfl
  simp only [newID, String.length, List.length_replicate] at bound ⊢
  omega

theorem newID_not_mem_streams (w : World CT) : w.newID ∉ w.streams := fun member =>
  (w.length_lt_newID_length (List.mem_append_left _ (AList.mem_keys.mp member))).false

theorem find?_newID (w : World CT) : w.eventStreams.find? w.newID = none :=
  SpecTable.find?_eq_none_iff.mpr fun _ member same =>
    (w.length_lt_newID_length (List.mem_append_right _ (same ▸ List.mem_map_of_mem _ member))).false

/-- Modelled from the spec: `initEventStream` builds a new stream object for `spec`, honouring its
persisted status (§4.5): its tasks are started when that status is `started`. -/
def newEventStream (w : World CT) (spec : EventStreamSpec CT) : World CT × Nat :=
  ({ w with heap := w.heap ++ [⟨spec, decide (spec.status = some .started)⟩] }, w.heap.length)

/-- A write to the fields of the stream `es`. -/
@[simps]
def modifyStream (w : World CT) (es : Nat) (f : EventStream CT → EventStream CT) : World CT :=
  { w with heap := w.heap.modify f es }

/-- The stream's tasks started (`active`) or ended. -/
def setActive (w : World CT) (es : Nat) (active : Bool) : World CT :=
  w.modifyStream es fun stream => { stream with active }

/-- `es.spec.InitialSequenceID = &sequenceID`. -/
def setInitialSequenceID (w : World CT) (es : Nat) (sequenceID : String) : World CT :=
  w.modifyStream es fun stream =>
    { stream with spec := { stream.spec with initialSequenceID := some sequenceID } }

/-- `*es.spec.Status`. -/
def status? (w : World CT) (es : Nat) : Option EventStreamStatus :=
  w.heap[es]?.bind (·.spec.status)

/-- Modelled from the spec: `stop` and `delete` (§4.4) end the stream's tasks and record the new
status, on the stream and in its persisted row. -/
@[simps]
def recordStatus (w : World CT) (es : Nat) (status : EventStreamStatus) : World CT :=
  { w with
    heap := w.heap.modify (fun stream => ⟨{ stream.spec with status := some status }, false⟩) es
    eventStreams := match w.heap[es]? with
      | some stream => w.eventStreams.updateSparse (.statusUpdate stream.spec.id status)
      | none => w.eventStreams }

/-- `EventStreams().Upsert`: the new world and `isNew`. -/
def upsertSpec (w : World CT) (spec : EventStreamSpec CT) : World CT × Bool :=
  ({ w with eventStreams := (w.eventStreams.upsert spec).1 }, (w.eventStreams.upsert spec).2)

/-- `EventStreams().Delete(id)`. -/
@[simps]
def deleteSpec (w : World CT) (id : String) : World CT :=
  { w with eventStreams := w.eventStreams.delete id }

/-- `EventStreams().UpdateSparse(sparse)`. -/
@[simps]
def updateSparse (w : World CT) (sparse : EventStreamSpec CT) : World CT :=
  { w with eventStreams := w.eventStreams.updateSparse sparse }

/-- `Checkpoints().DeleteMany` with the filter `id = id`. -/
@[simps]
def deleteCheckpoints (w : World CT) (id : String) : World CT :=
  { w with checkpoints := w.checkpoints.filter fun checkpoint => checkpoint.id ≠ id }

@[simp]
theorem streams_upsertSpec (w : World CT) (spec : EventStreamSpec CT) :
    (w.upsertSpec spec).1.streams = w.streams := rfl

@[simp]
theorem eventStreams_upsertSpec (w : World CT) (spec : EventStreamSpec CT) :
    (w.upsertSpec spec).1.eventStreams = (w.eventStreams.upsert spec).1 := rfl

@[simp]
theorem heap_upsertSpec (w : World CT) (spec : EventStreamSpec CT) :
    (w.upsertSpec spec).1.heap = w.heap := rfl

@[simp]
theorem checkpoints_upsertSpec (w : World CT) (spec : EventStreamSpec CT) :
    (w.upsertSpec spec).1.checkpoints = w.checkpoints := rfl

@[simp]
theorem find?_upsertSpec (w : World CT) (spec : EventStreamSpec CT) (id : String) :
    (w.upsertSpec spec).1.eventStreams.find? id =
      if spec.getID = id then some spec else w.eventStreams.find? id :=
  SpecTable.find?_upsert _ _ _

@[simp]
theorem streams_newEventStream (w : World CT) (spec : EventStreamSpec CT) :
    (w.newEventStream spec).1.streams = w.streams := rfl

@[simp]
theorem eventStreams_newEventStream (w : World CT) (spec : EventStreamSpec CT) :
    (w.newEventStream spec).1.eventStreams = w.eventStreams := rfl

@[simp]
theorem checkpoints_newEventStream (w : World CT) (spec : EventStreamSpec CT) :
    (w.newEventStream spec).1.checkpoints = w.checkpoints := rfl

@[simp]
theorem length_newEventStream (w : World CT) (spec : EventStreamSpec CT) :
    (w.newEventStream spec).1.heap.length = w.heap.length + 1 := by
  simp [newEventStream]

@[simp]
theorem address_newEventStream (w : World CT) (spec : EventStreamSpec CT) :
    (w.newEventStream spec).2 = w.heap.length := rfl

@[simp]
theorem heap_addStream (w : World CT) (es : Nat) : (w.addStream es).heap = w.heap := by
  unfold addStream; split <;> rfl

@[simp]
theorem eventStreams_addStream (w : World CT) (es : Nat) :
    (w.addStream es).eventStreams = w.eventStreams := by
  unfold addStream; split <;> rfl

@[simp]
theorem checkpoints_addStream (w : World CT) (es : Nat) :
    (w.addStream es).checkpoints = w.checkpoints := by
  unfold addStream; split <;> rfl

theorem streams_addStream {w : World CT} {es : Nat} {stream : EventStream CT}
    (exists_ : w.heap[es]? = some stream) :
    (w.addStream es).streams = w.streams.insert stream.spec.getID es := by
  simp [addStream, exists_]

theorem getElem?_modify_heap (heap : List (EventStream CT)) (es : Nat)
    (f : EventStream CT → EventStream CT) (other : Nat) :
    (heap.modify f es)[other]? = if es = other then heap[other]?.map f else heap[other]? := by
  rw [List.getElem?_modify]
  split <;> simp_all

@[simp]
theorem getElem?_modifyStream (w : World CT) (es : Nat) (f : EventStream CT → EventStream CT)
    (other : Nat) :
    (w.modifyStream es f).heap[other]? = if es = other then w.heap[other]?.map f else w.heap[other]? :=
  getElem?_modify_heap _ _ _ _

@[simp]
theorem streams_setActive (w : World CT) (es : Nat) (active : Bool) :
    (w.setActive es active).streams = w.streams := rfl

@[simp]
theorem eventStreams_setActive (w : World CT) (es : Nat) (active : Bool) :
    (w.setActive es active).eventStreams = w.eventStreams := rfl

@[simp]
theorem checkpoints_setActive (w : World CT) (es : Nat) (active : Bool) :
    (w.setActive es active).checkpoints = w.checkpoints := rfl

@[simp]
theorem length_setActive (w : World CT) (es : Nat) (active : Bool) :
    (w.setActive es active).heap.length = w.heap.length :=
  List.length_modify _ _ _

@[simp]
theorem getElem?_setActive (w : World CT) (es : Nat) (active : Bool) (other : Nat) :
    (w.setActive es active).heap[other]? =
      if es = other then w.heap[other]?.map ({ · with active }) else w.heap[other]? :=
  getElem?_modify_heap _ _ _ _

@[simp]
theorem streams_setInitialSequenceID (w : World CT) (es : Nat) (sequenceID : String) :
    (w.setInitialSequenceID es sequenceID).streams = w.streams := rfl

@[simp]
theorem eventStreams_setInitialSequenceID (w : World CT) (es : Nat) (sequenceID : String) :
    (w.setInitialSequenceID es sequenceID).eventStreams = w.eventStreams := rfl

@[simp]
theorem checkpoints_setInitialSequenceID (w : World CT) (es : Nat) (sequenceID : String) :
    (w.setInitialSequenceID es sequenceID).checkpoints = w.checkpoints := rfl

@[simp]
theorem getElem?_setInitialSequenceID (w : World CT) (es : Nat) (sequenceID : String)
    (other : Nat) :
    (w.setInitialSequenceID es sequenceID).heap[other]? =
      if es = other then
        w.heap[other]?.map fun stream =>
          { stream with spec := { stream.spec with initialSequenceID := some sequenceID } }
      else w.heap[other]? :=
  getElem?_modify_heap _ _ _ _

@[simp]
theorem status?_setActive (w : World CT) (es : Nat) (active : Bool) (other : Nat) :
    (w.setActive es active).status? other = w.status? other := by
  simp only [status?, getElem?_setActive]
  split <;> cases w.heap[other]? <;> rfl

@[simp]
theorem status?_setInitialSequenceID (w : World CT) (es : Nat) (sequenceID : String)
    (other : Nat) :
    (w.setInitialSequenceID es sequenceID).status? other = w.status? other := by
  simp only [status?, getElem?_setInitialSequenceID]
  split <;> cases w.heap[other]? <;> rfl

@[simp]
theorem status?_deleteCheckpoints (w : World CT) (id : String) (es : Nat) :
    (w.deleteCheckpoints id).status? es = w.status? es := rfl

@[simp]
theorem status?_updateSparse (w : World CT) (sparse : EventStreamSpec CT) (es : Nat) :
    (w.updateSparse sparse).status? es = w.status? es := rfl

theorem getElem?_newEventStream (w : World CT) (spec : EventStreamSpec CT) (other : Nat) :
    (w.newEventStream spec).1.heap[other]? =
      if other = w.heap.length then some ⟨spec, decide (spec.status = some .started)⟩
      else w.heap[other]? := by
  simp only [newEventStream]
  split
  case isTrue fresh => subst fresh; exact List.getElem?_concat_length _ _
  case isFalse old =>
    rcases Nat.lt_or_gt_of_ne old with inside | outside
    · exact List.getElem?_append_left inside
    · rw [List.getElem?_eq_none (by simp; omega), List.getElem?_eq_none (by omega)]

theorem getElem?_newEventStream_length (w : World CT) (spec : EventStreamSpec CT) :
    (w.newEventStream spec).1.heap[w.heap.length]? =
      some ⟨spec, decide (spec.status = some .started)⟩ := by
  rw [getElem?_newEventStream, if_pos rfl]

end World

end FireflyCommon.EventStreams
