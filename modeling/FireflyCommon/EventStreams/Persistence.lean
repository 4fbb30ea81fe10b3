import FireflyCommon.EventStreams.Spec

set_option autoImplicit false

/-!
# The persisted tables

Modelled from the spec (§4.1, §6): the persistence gateway behind
`esm.persistence.EventStreams()` and `esm.persistence.Checkpoints()`, whose code is not in the
source. The `event_streams` table keeps its rows in the fixed order `GetMany` pages by, and
the ID is its primary key, so a table is a list of specs with distinct IDs. Every call is
atomic: `Upsert` replaces the row with the same ID or appends a new one, `Delete` removes the
row, and a sparse update writes only the fields its partial spec sets.
-/

namespace FireflyCommon.EventStreams

variable {CT : Type}

/-- Modelled from the spec: the `event_streams` table behind the persistence gateway (§4.1), its
rows in paging order and their IDs distinct. -/
@[ext]
structure SpecTable (CT : Type) where
  rows : List (EventStreamSpec CT)
  distinct : (rows.map EventStreamSpec.getID).Nodup

instance [DecidableEq CT] : DecidableEq (SpecTable CT) := fun left right =>
  decidable_of_iff (left.rows = right.rows) (by cases left; cases right; simp)

namespace SpecTable

/-- The table with no rows. -/
def empty : SpecTable CT := ⟨[], List.nodup_nil⟩

/-- `GetByID`: the row with this ID. -/
def find? (table : SpecTable CT) (id : String) : Option (EventStreamSpec CT) :=
  table.rows.find? fun row => row.getID = id

/-- `GetMany` with `Skip(skip).Limit(limit)`: the rows at positions `skip` to `skip + limit - 1`. -/
def getMany (table : SpecTable CT) (skip limit : Nat) : List (EventStreamSpec CT) :=
  (table.rows.drop skip).take limit

/-- A map over the rows that keeps every row's ID keeps the IDs distinct. -/
theorem distinct_map (table : SpecTable CT) (f : EventStreamSpec CT → EventStreamSpec CT)
    (keepsID : ∀ row, (f row).getID = row.getID) :
    ((table.rows.map f).map EventStreamSpec.getID).Nodup := by
  rw [List.map_map]
  convert table.distinct using 2
  exact funext keepsID

theorem distinct_filter (table : SpecTable CT) (keep : EventStreamSpec CT → Bool) :
    ((table.rows.filter keep).map EventStreamSpec.getID).Nodup :=
  table.distinct.sublist ((List.filter_sublist _).map _)

/-- The row a spec replaces: the one with its ID. -/
def replaceRow (spec row : EventStreamSpec CT) : EventStreamSpec CT :=
  if row.getID = spec.getID then spec else row

theorem getID_replaceRow (spec row : EventStreamSpec CT) :
    (replaceRow spec row).getID = row.getID := by
  unfold replaceRow
  split <;> simp_all

/-- `Upsert(spec, UpsertOptimizationExisting)`: the new table and `isNew`. -/
def upsert (table : SpecTable CT) (spec : EventStreamSpec CT) : SpecTable CT × Bool :=
  if present : table.rows.any (fun row => row.getID = spec.getID) then
    (⟨table.rows.map (replaceRow spec), table.distinct_map _ (getID_replaceRow spec)⟩, false)
  else
    (⟨table.rows ++ [spec], by
      rw [List.map_append, List.nodup_append]
      refine ⟨table.distinct, List.nodup_singleton _, ?_⟩
      simp only [List.any_eq_true, decide_eq_true_eq, not_exists, not_and] at present
      simpa [List.disjoint_singleton] using present⟩, true)

/-- `Delete(id)`. -/
def delete (table : SpecTable CT) (id : String) : SpecTable CT :=
  ⟨table.rows.filter (fun row => row.getID ≠ id), table.distinct_filter _⟩

/-- The row a sparse update writes to: the one with its ID. -/
def updateRow (sparse row : EventStreamSpec CT) : EventStreamSpec CT :=
  if row.getID = sparse.getID then row.merge sparse else row

theorem getID_updateRow (sparse row : EventStreamSpec CT) :
    (updateRow sparse row).getID = row.getID := by
  unfold updateRow
  split <;> rfl

/-- `UpdateSparse(sparse)`: the set fields of `sparse` written to the row with its ID. -/
def updateSparse (table : SpecTable CT) (sparse : EventStreamSpec CT) : SpecTable CT :=
  ⟨table.rows.map (updateRow sparse), table.distinct_map _ (getID_updateRow sparse)⟩

theorem getID_of_find? {table : SpecTable CT} {id : String} {row : EventStreamSpec CT}
    (found : table.find? id = some row) : row.getID = id := by
  simpa using List.find?_some found

theorem find?_eq_none_iff {table : SpecTable CT} {id : String} :
    table.find? id = none ↔ ∀ row ∈ table.rows, row.getID ≠ id := by
  simp [find?, List.find?_eq_none]

theorem find?_map (table : SpecTable CT) (f : EventStreamSpec CT → EventStreamSpec CT)
    (keepsID : ∀ row, (f row).getID = row.getID) (id : String) :
    (table.rows.map f).find? (fun row => row.getID = id) = (table.find? id).map f := by
  simp only [find?, List.find?_map, Function.comp_def, keepsID]

@[simp]
theorem find?_upsert (table : SpecTable CT) (spec : EventStreamSpec CT) (id : String) :
    (table.upsert spec).1.find? id = if spec.getID = id then some spec else table.find? id := by
  unfold upsert
  split
  case isTrue present =>
    show (table.rows.map (replaceRow spec)).find? _ = _
    rw [find?_map table _ (getID_replaceRow spec)]
    cases found : table.find? id with
    | none =>
        obtain ⟨row, member, sameID⟩ := List.any_eq_true.mp present
        have absent := find?_eq_none_iff.mp found row member
        split_ifs with same
        · exact absurd (same ▸ of_decide_eq_true sameID) absent
        · rfl
    | some row =>
        simp only [Option.map_some', replaceRow, getID_of_find? found]
        by_cases same : spec.getID = id
        · simp [same]
        · simp [same, Ne.symm same]
  case isFalse absent =>
    show (table.rows ++ [spec]).find? _ = _
    rw [List.find?_append]
    split_ifs with same
    · subst same
      have none : table.find? spec.getID = none :=
        find?_eq_none_iff.mpr (by simpa using absent)
      simp only [find?] at none
      simp [none]
    · simp [find?, same]

@[simp]
theorem find?_delete (table : SpecTable CT) (deleted id : String) :
    (table.delete deleted).find? id = if deleted = id then none else table.find? id := by
  split_ifs with same
  · subst same
    exact find?_eq_none_iff.mpr fun row member => (by simpa [delete] using member : _ ∧ _).2
  · simp only [find?, delete, List.find?_filter]
    congr 1
    funext row
    by_cases sameRow : row.getID = id
    · simp [sameRow, Ne.symm same]
    · simp [sameRow]

@[simp]
theorem find?_updateSparse (table : SpecTable CT) (sparse : EventStreamSpec CT) (id : String) :
    (table.updateSparse sparse).find? id =
      if sparse.getID = id then (table.find? id).map (·.merge sparse) else table.find? id := by
  show (table.rows.map (updateRow sparse)).find? _ = _
  rw [find?_map table _ (getID_updateRow sparse)]
  cases found : table.find? id with
  | none => simp
  | some row =>
      simp only [Option.map_some', updateRow, getID_of_find? found]
      by_cases same : sparse.getID = id
      · simp [same]
      · simp [same, Ne.symm same]

theorem mem_upsert {table : SpecTable CT} {spec row : EventStreamSpec CT}
    (member : row ∈ (table.upsert spec).1.rows) : row ∈ table.rows ∨ row = spec := by
  unfold upsert at member
  split at member
  · obtain ⟨old, kept, rfl⟩ := List.mem_map.mp member
    unfold replaceRow
    split
    · exact .inr rfl
    · exact .inl kept
  · simpa using member

theorem mem_updateSparse {table : SpecTable CT} {sparse row : EventStreamSpec CT}
    (member : row ∈ (table.updateSparse sparse).rows) : ∃ old ∈ table.rows, row = updateRow sparse old :=
  let ⟨old, kept, updated⟩ := List.mem_map.mp member
  ⟨old, kept, updated.symm⟩

theorem mem_delete {table : SpecTable CT} {id : String} {row : EventStreamSpec CT}
    (member : row ∈ (table.delete id).rows) : row ∈ table.rows :=
  (List.mem_filter.mp member).1

/-- Two rows of a table with the same ID are the same row. -/
theorem eq_of_getID_eq (table : SpecTable CT) {row row' : EventStreamSpec CT}
    (member : row ∈ table.rows) (member' : row' ∈ table.rows) (sameID : row.getID = row'.getID) :
    row = row' :=
  List.inj_on_of_nodup_map table.distinct member member' sameID

/-- Each row is the one found under its ID. -/
theorem find?_of_mem {table : SpecTable CT} {row : EventStreamSpec CT}
    (member : row ∈ table.rows) : table.find? row.getID = some row := by
  cases found : table.find? row.getID with
  | none => exact absurd rfl (find?_eq_none_iff.mp found row member)
  | some row' =>
      exact congrArg some (table.eq_of_getID_eq (List.mem_of_find?_eq_some found) member
        (getID_of_find? found))

/-- A row of the first `n` and a row after them have different IDs. -/
theorem getID_ne_of_mem_take_of_mem_drop (table : SpecTable CT) {n : Nat}
    {front back : EventStreamSpec CT} (inFront : front ∈ table.rows.take n)
    (inBack : back ∈ table.rows.drop n) : front.getID ≠ back.getID := fun same => by
  have distinct := table.distinct
  rw [← List.take_append_drop n table.rows, List.map_append, List.nodup_append] at distinct
  exact distinct.2.2 (List.mem_map_of_mem _ inFront) (same ▸ List.mem_map_of_mem _ inBack)

theorem getID_ne_of_distinct {before after : List (EventStreamSpec CT)} {row other : EventStreamSpec CT}
    (distinct : ((before ++ row :: after).map EventStreamSpec.getID).Nodup)
    (member : other ∈ before ++ after) : other.getID ≠ row.getID := fun same => by
  rw [List.map_append, List.map_cons, List.nodup_middle, List.nodup_cons, ← List.map_append]
    at distinct
  exact distinct.1 (same ▸ List.mem_map_of_mem _ member)

/-- Deleting the ID of a row removes that row and no other. -/
theorem filter_getID_ne_of_distinct {before after : List (EventStreamSpec CT)}
    {row : EventStreamSpec CT} (distinct : ((before ++ row :: after).map EventStreamSpec.getID).Nodup) :
    (before ++ row :: after).filter (fun other => other.getID ≠ row.getID) = before ++ after := by
  rw [List.filter_append, List.filter_cons_of_neg (by simp), ← List.filter_append,
    List.filter_eq_self]
  intro other member
  simpa using getID_ne_of_distinct distinct member

/-- Deleting an ID that none of the first `n` rows has keeps the first `n` rows. -/
theorem take_delete (table : SpecTable CT) {id : String} (n : Nat)
    (apart : ∀ row ∈ table.rows.take n, row.getID ≠ id) :
    (table.delete id).rows.take n = table.rows.take n := by
  show (table.rows.filter _).take n = _
  generalize table.rows = rows at apart
  induction rows generalizing n with
  | nil => rfl
  | cons row rows inductionHypothesis =>
      cases n with
      | zero => rfl
      | succ n =>
          rw [List.filter_cons_of_pos (by simpa using apart row (List.mem_cons_self _ _)),
            List.take_succ_cons, List.take_succ_cons,
            inductionHypothesis n fun other member => apart other (List.mem_cons_of_mem _ member)]

/-- Upserting a spec the table already holds changes nothing. -/
theorem upsert_of_find? {table : SpecTable CT} {spec : EventStreamSpec CT}
    (persisted : table.find? spec.getID = some spec) : (table.upsert spec).1 = table := by
  have member := List.mem_of_find?_eq_some persisted
  have present : table.rows.any (fun row => row.getID = spec.getID) :=
    List.any_eq_true.mpr ⟨spec, member, by simp⟩
  apply SpecTable.ext
  rw [upsert, dif_pos present]
  refine (List.map_congr_left fun row inside => ?_).trans (List.map_id _)
  unfold replaceRow
  split
  case isTrue same => exact (table.eq_of_getID_eq inside member same).symm
  case isFalse => rfl

theorem upsert_upsert (table : SpecTable CT) (spec : EventStreamSpec CT) :
    ((table.upsert spec).1.upsert spec).1 = (table.upsert spec).1 :=
  upsert_of_find? (by simp)

end SpecTable

end FireflyCommon.EventStreams
