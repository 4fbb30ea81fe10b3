import FireflyCommon.EventStreams.Service
import Mathlib.Data.List.Range

set_option autoImplicit false

/-!
# Startup

`initialize` pages the `event_streams` table 25 rows at a time and advances `skip` by the page
size whatever the page did. A page deletes the rows marked deleted, so the rows after them move
up, and the next page starts past rows that no page has shown: they are neither registered nor
purged. The loop still ends, since no call of it adds a row. None of its requests touches the
checkpoints, so a row it purges keeps its checkpoint. Each stream it builds runs exactly when its
persisted status is `started`.
-/

namespace FireflyCommon.EventStreams

open Prog World

variable {CT : Type}

section

variable (post : World CT → Except Error Unit → List (Request CT) → Prop) (w : World CT)

@[simp]
theorem initializePage_nil_wp : (initializePage ([] : List (EventStreamSpec CT))).wp post w ↔
    post w (.ok ()) [] := Iff.rfl

theorem initializePage_cons_wp (esSpec : EventStreamSpec CT) (streams : List (EventStreamSpec CT)) :
    (initializePage (esSpec :: streams)).wp post w ↔
      if esSpec.status = some .deleted then
        post w (.error (.failed .eventStreamsDelete)) [.eventStreamsDelete esSpec.getID] ∧
          (initializePage streams).wp (fun w result made =>
            post w result (.eventStreamsDelete esSpec.getID :: made)) (w.deleteSpec esSpec.getID)
      else
        post w (.error (.failed .initEventStream)) [.initEventStream esSpec] ∧
          (initializePage streams).wp (fun w result made =>
            post w result (.initEventStream esSpec :: made))
            ((w.newEventStream esSpec).1.addStream w.heap.length) := by
  rw [initializePage]
  split <;> simp [perform, addStream, ask, wp_bind]

end

theorem initializeFrom_succ_wp (fuel skip : Nat)
    (post : World CT → Except Error (Option Unit) → List (Request CT) → Prop) (w : World CT) :
    (initializeFrom (fuel + 1) skip).wp post w ↔
      post w (.error (.failed .eventStreamsGetMany)) [.eventStreamsGetMany skip pageSize] ∧
      if (w.eventStreams.getMany skip pageSize).length = 0 then
        post w (.ok (some ())) [.eventStreamsGetMany skip pageSize]
      else
        (initializePage (w.eventStreams.getMany skip pageSize)).wp (fun w result made =>
          match result with
          | .ok () => (initializeFrom fuel (skip + pageSize)).wp (fun w result rest =>
              post w result (.eventStreamsGetMany skip pageSize :: (made ++ rest))) w
          | .error error => post w (.error error) (.eventStreamsGetMany skip pageSize :: made)) w := by
  simp only [initializeFrom, perform, bind_eq, request_bind, wp_request, Request.origin,
    ofExcept_error, fail_bind, wp_fail, ofExcept_ok, ret_bind, Request.exec, and_congr_right_iff]
  intro
  by_cases empty : (w.eventStreams.getMany skip pageSize).length = 0
  · simp [empty]
  · simp only [empty, if_false, wp_bind]
    exact ⟨fun holds => wp_mono holds fun w result made => by cases result <;> simp_all,
      fun holds => wp_mono holds fun w result made => by cases result <;> simp_all⟩

section

variable {invariant : World CT → Prop}
  (purge : ∀ w id, invariant w → invariant (w.deleteSpec id))
  (build : ∀ w esSpec, invariant w →
    invariant ((w.newEventStream esSpec).1.addStream w.heap.length))
include purge build

/-- A property of the world that purging a row and building and registering a stream keep holds
after a page, whichever requests fail: a page makes no other write. -/
theorem initializePage_wp_invariant (page : List (EventStreamSpec CT)) {w : World CT}
    (holds : invariant w) : (initializePage page).wp (fun w' _ _ => invariant w') w := by
  induction page generalizing w with
  | nil => exact holds
  | cons esSpec streams inductionHypothesis =>
      rw [initializePage_cons_wp]
      split
      · exact ⟨holds, inductionHypothesis (purge _ _ holds)⟩
      · exact ⟨holds, inductionHypothesis (build _ _ holds)⟩

/-- The same after the page loop, since `GetMany` writes nothing. -/
theorem initializeFrom_wp_invariant (fuel skip : Nat) {w : World CT} (holds : invariant w) :
    (initializeFrom fuel skip).wp (fun w' _ _ => invariant w') w := by
  induction fuel generalizing skip w with
  | zero => exact holds
  | succ fuel inductionHypothesis =>
      rw [initializeFrom_succ_wp]
      refine ⟨holds, ?_⟩
      split
      · exact holds
      · refine wp_mono (initializePage_wp_invariant purge build _ holds) fun w' result _ kept => ?_
        cases result with
        | error => exact kept
        | ok => exact inductionHypothesis _ kept

end

/-- A page deletes rows and adds none: the table after it is a sublist of the table before. -/
theorem initializePage_wp_sublist (page : List (EventStreamSpec CT)) (w : World CT) :
    (initializePage page).wp (fun w' _ _ => w'.eventStreams.rows.Sublist w.eventStreams.rows) w := by
  induction page generalizing w with
  | nil => exact List.Sublist.refl _
  | cons esSpec streams inductionHypothesis =>
      rw [initializePage_cons_wp]
      split
      · exact ⟨List.Sublist.refl _, wp_mono (inductionHypothesis _) fun _ _ _ shrunk =>
          shrunk.trans (List.filter_sublist _)⟩
      · exact ⟨List.Sublist.refl _, wp_mono (inductionHypothesis _) fun _ _ _ shrunk => by
          simpa using shrunk⟩

/-- The page loop ends: `fuel + 1` pages from `skip` are enough when `fuel` pages past `skip`
reach the end of the table, whichever requests fail. -/
theorem initializeFrom_ends (fuel skip : Nat) {w : World CT}
    (enough : w.eventStreams.rows.length ≤ skip + fuel * pageSize) :
    (initializeFrom (fuel + 1) skip).wp (fun _ result _ => result ≠ .ok none) w := by
  induction fuel generalizing skip w with
  | zero =>
      have empty : (w.eventStreams.getMany skip pageSize).length = 0 := by
        simp only [SpecTable.getMany, List.length_take, List.length_drop]
        omega
      rw [initializeFrom_succ_wp, if_pos empty]
      simp
  | succ fuel inductionHypothesis =>
      rw [initializeFrom_succ_wp]
      refine ⟨by simp, ?_⟩
      split
      case isTrue => simp
      case isFalse nonEmpty =>
        have inside : skip < w.eventStreams.rows.length := by
          simp only [SpecTable.getMany, List.length_take, List.length_drop] at nonEmpty
          omega
        refine wp_mono (initializePage_wp_sublist _ w) fun w' result _ shrunk => ?_
        cases result with
        | error => simp
        | ok =>
            have fits : w'.eventStreams.rows.length ≤ skip + pageSize + fuel * pageSize := by
              have := shrunk.length_le
              simp only [pageSize, Nat.succ_mul] at enough ⊢
              omega
            exact wp_mono (inductionHypothesis (skip + pageSize) fits) fun _ _ _ ended => ended

/-- A table of two rows, neither marked deleted. -/
def twoRowTable : SpecTable Unit :=
  ⟨[⟨some "a", some .started, none, none⟩, ⟨some "b", some .stopped, none, none⟩], by decide⟩

/-- `initialize` on a table of at most `fuel` pages ends within `fuel + 1` pages, whichever
requests fail: it never runs out of pages. -/
theorem initializeManager_ends (fuel : Nat) (eventStreams : SpecTable CT)
    (checkpoints : List EventStreamCheckpoint) (plan : List Bool)
    (enough : eventStreams.rows.length ≤ fuel * pageSize) :
    ((initializeManager (fuel + 1)).run plan (World.boot eventStreams checkpoints)).2 ≠ .ok none :=
  run_of_wp (initializeFrom_ends fuel 0 (by simpa [World.boot] using enough)) plan

theorem initializeManager_ends_twoRows :
    twoRowTable.rows.length ≤ 1 * pageSize ∧
    ((initializeManager 2).run [] (World.boot twoRowTable [])).2 ≠ .ok none :=
  ⟨by decide, initializeManager_ends 1 twoRowTable [] [] (by decide)⟩

/-- What `initialize` builds from the rows of `table`: each stream is a row of it not marked
deleted, and the table left is a sublist of it. -/
structure FromTable (table : SpecTable CT) (w : World CT) : Prop where
  sublist : w.eventStreams.rows.Sublist table.rows
  built : ∀ (es : Nat) (stream : EventStream CT), w.heap[es]? = some stream →
    stream.spec ∈ table.rows ∧ stream.spec.status ≠ some .deleted

theorem initializePage_wp_fromTable {table : SpecTable CT} (page : List (EventStreamSpec CT))
    (fetched : ∀ row ∈ page, row ∈ table.rows) {w : World CT} (holds : FromTable table w) :
    (initializePage page).wp (fun w' _ _ => FromTable table w') w := by
  induction page generalizing w with
  | nil => exact holds
  | cons row rest inductionHypothesis =>
      have later := fun other member => fetched other (List.mem_cons_of_mem row member)
      rw [initializePage_cons_wp]
      split
      case isTrue =>
        exact ⟨holds, inductionHypothesis later
          ⟨(List.filter_sublist _).trans holds.sublist, holds.built⟩⟩
      case isFalse live =>
        refine ⟨holds, inductionHypothesis later ⟨by simpa using holds.sublist, ?_⟩⟩
        intro es stream found
        rw [heap_addStream, getElem?_newEventStream] at found
        split at found
        case isTrue =>
          simp only [Option.some.injEq] at found
          subst found
          exact ⟨fetched row (List.mem_cons_self _ _), live⟩
        case isFalse => exact holds.built es stream found

theorem initializeFrom_wp_fromTable {table : SpecTable CT} (fuel skip : Nat) {w : World CT}
    (holds : FromTable table w) :
    (initializeFrom fuel skip).wp (fun w' _ _ => FromTable table w') w := by
  induction fuel generalizing skip w with
  | zero => exact holds
  | succ fuel inductionHypothesis =>
      rw [initializeFrom_succ_wp]
      refine ⟨holds, ?_⟩
      split
      case isTrue => exact holds
      case isFalse =>
        have fetched : ∀ row ∈ w.eventStreams.getMany skip pageSize, row ∈ table.rows :=
          fun row member => holds.sublist.subset
            ((List.take_sublist _ _).trans (List.drop_sublist _ _) |>.subset member)
        refine wp_mono (initializePage_wp_fromTable _ fetched holds) fun w' result _ built => ?_
        cases result with
        | error => exact built
        | ok => exact wp_mono (inductionHypothesis _ built) fun _ _ _ kept => kept

/-- Whatever requests fail, every stream `initialize` registers is built from a row of the
table it started from, under that row's ID, and from no row marked deleted. -/
theorem initializeManager_registers_live_rows (fuel : Nat) (table : SpecTable CT)
    (checkpoints : List EventStreamCheckpoint) (plan : List Bool) (id : String)
    {stream : EventStream CT}
    (registered : ((initializeManager fuel).run plan (World.boot table checkpoints)).1.registered id =
      some stream) :
    stream.spec ∈ table.rows ∧ stream.spec.status ≠ some .deleted ∧ stream.spec.getID = id := by
  have built := run_of_wp (initializeFrom_wp_fromTable fuel 0
    (⟨List.Sublist.refl _, fun _ _ found => by simp [World.boot] at found⟩ :
      FromTable table (World.boot table checkpoints))) plan
  have wellFormed := (WellFormed.boot table checkpoints).run (initializeManager fuel) plan
  simp only [World.registered, Option.bind_eq_some] at registered
  obtain ⟨es, found, live⟩ := registered
  obtain ⟨stream', live', keyed⟩ := wellFormed.keyed id es found
  rw [live, Option.some.injEq] at live'
  subst live'
  exact ⟨(built.built es _ live).1, (built.built es _ live).2, keyed⟩

theorem initializeManager_registers_live_rows_twoRows :
    ((initializeManager 2).run [] (World.boot twoRowTable [])).1.registered "b" =
      some ⟨⟨some "b", some .stopped, none, none⟩, false⟩ ∧
    (⟨some "b", some .stopped, none, none⟩ ∈ twoRowTable.rows ∧
      (⟨some "b", some .stopped, none, none⟩ : EventStreamSpec Unit).status ≠ some .deleted ∧
      (⟨some "b", some .stopped, none, none⟩ : EventStreamSpec Unit).getID = "b") :=
  have registered : ((initializeManager 2).run [] (World.boot twoRowTable [])).1.registered "b" =
      some ⟨⟨some "b", some .stopped, none, none⟩, false⟩ := by decide
  ⟨registered, initializeManager_registers_live_rows 2 twoRowTable [] [] "b" registered⟩

/-- While `initialize` loads a table with no row marked deleted: the table is unchanged, and
what is registered under each ID is the row with that ID among those loaded so far. -/
structure Loaded (table : SpecTable CT) (done : List (EventStreamSpec CT)) (w : World CT) :
    Prop where
  unchanged : w.eventStreams = table
  wellFormed : w.WellFormed
  registered : ∀ id, w.liveSpec id = done.find? fun row => row.getID = id

theorem initializePage_wp_loaded {table : SpecTable CT} (done page : List (EventStreamSpec CT))
    (distinct : ((done ++ page).map EventStreamSpec.getID).Nodup)
    (live : ∀ row ∈ page, row.status ≠ some .deleted) {w : World CT}
    (loaded : Loaded table done w) :
    (initializePage page).wp (fun w' result _ => result = .ok () → Loaded table (done ++ page) w')
      w := by
  induction page generalizing done w with
  | nil => simpa using loaded
  | cons row rest inductionHypothesis =>
      rw [initializePage_cons_wp, if_neg (live row (List.mem_cons_self _ _))]
      refine ⟨by simp, ?_⟩
      have fresh : ∀ other ∈ done, other.getID ≠ row.getID := fun other member same => by
        rw [List.map_append] at distinct
        exact List.disjoint_of_nodup_append distinct (List.mem_map_of_mem _ member) (by simp [same])
      have next : Loaded table (done ++ [row]) ((w.newEventStream row).1.addStream w.heap.length) :=
        ⟨by simp [loaded.unchanged], (loaded.wellFormed.newEventStream row).addStream _, fun id => by
          rw [liveSpec_register loaded.wellFormed, List.find?_append, ← loaded.registered]
          split
          case isTrue same =>
            subst same
            have absent : w.liveSpec row.getID = none := by
              rw [loaded.registered, List.find?_eq_none]
              exact fun other member => by simpa using fresh other member
            simp [absent]
          case isFalse different => simp [Ne.symm different]⟩
      have continued := inductionHypothesis (done ++ [row]) (by simpa using distinct)
        (fun other member => live other (List.mem_cons_of_mem _ member)) next
      exact wp_mono continued fun w' result _ loadedRest ok => by simpa using loadedRest ok

theorem initializeFrom_wp_loaded (table : SpecTable CT) (fuel skip : Nat)
    (noneDeleted : ∀ row ∈ table.rows, row.status ≠ some .deleted) {w : World CT}
    (loaded : Loaded table (table.rows.take skip) w) :
    (initializeFrom fuel skip).wp
      (fun w' result _ => result = .ok (some ()) → w'.Agree ∧ w'.eventStreams = table) w := by
  induction fuel generalizing skip w with
  | zero => simp [initializeFrom]
  | succ fuel inductionHypothesis =>
      rw [initializeFrom_succ_wp, loaded.unchanged]
      refine ⟨by simp, ?_⟩
      split
      case isTrue empty =>
        refine fun _ => ⟨fun id => ?_, rfl⟩
        have whole : table.rows.take skip = table.rows := by
          apply List.take_of_length_le
          simp only [SpecTable.getMany, List.length_take, List.length_drop] at empty
          simp only [pageSize] at empty
          omega
        rw [loaded.registered, whole, loaded.unchanged]
        rfl
      case isFalse =>
        have distinct : ((table.rows.take skip ++ table.getMany skip pageSize).map
            EventStreamSpec.getID).Nodup := by
          rw [SpecTable.getMany, ← List.take_add]
          exact table.distinct.sublist ((List.take_sublist _ _).map _)
        have live : ∀ row ∈ table.getMany skip pageSize, row.status ≠ some .deleted :=
          fun row member => noneDeleted row
            ((List.take_sublist _ _).trans (List.drop_sublist _ _) |>.subset member)
        refine wp_mono (initializePage_wp_loaded _ _ distinct live loaded)
          fun w' result _ pageLoaded => ?_
        cases result with
        | error => simp
        | ok =>
            rw [SpecTable.getMany, ← List.take_add] at pageLoaded
            exact wp_mono (inductionHypothesis (skip + pageSize) (pageLoaded rfl))
              fun _ _ _ agree => agree

/-- A table with no row marked deleted is loaded whole: when `initialize` returns nil, the
registry and the table agree. -/
theorem initializeManager_agree (fuel : Nat) (table : SpecTable CT)
    (checkpoints : List EventStreamCheckpoint) (plan : List Bool)
    (noneDeleted : ∀ row ∈ table.rows, row.status ≠ some .deleted)
    (loaded : ((initializeManager fuel).run plan (World.boot table checkpoints)).2 = .ok (some ())) :
    ((initializeManager fuel).run plan (World.boot table checkpoints)).1.Agree :=
  (run_of_wp (initializeFrom_wp_loaded table fuel 0 noneDeleted
    ⟨rfl, WellFormed.boot _ _, fun _ => rfl⟩) plan loaded).1

theorem initializeManager_agree_twoRows :
    (∀ row ∈ twoRowTable.rows, row.status ≠ some .deleted) ∧
    ((initializeManager 2).run [] (World.boot twoRowTable [])).2 = .ok (some ()) ∧
    ((initializeManager 2).run [] (World.boot twoRowTable [])).1.Agree :=
  ⟨by decide, by decide, initializeManager_agree 2 twoRowTable [] [] (by decide) (by decide)⟩

/-- Row `n` of a 27-row table: its ID is one letter, and rows 0, 1 and 25 are marked deleted. -/
def startupRow (n : Nat) : EventStreamSpec Unit :=
  ⟨some ⟨[Char.ofNat (65 + n)]⟩, some (if n = 0 ∨ n = 1 ∨ n = 25 then .deleted else .started),
    none, none⟩

set_option maxRecDepth 4000 in
/-- A table of 27 rows, two of them marked deleted in the first page and one in the second. -/
def startupTable : SpecTable Unit := ⟨(List.range 27).map startupRow, by decide⟩

set_option maxRecDepth 20000 in
/-- The first page purges rows 0 and 1, rows 25 and 26 move up into it, and the second page
starts past them: `initialize` returns nil with row 26 not registered and row 25, marked deleted,
still in the table. -/
theorem initialize_skips_rows_after_purge :
    ((initializeManager 3).run [] (World.boot startupTable [])).2 = .ok (some ()) ∧
    (startupRow 26).status = some .started ∧
    ((initializeManager 3).run [] (World.boot startupTable [])).1.registered
      (startupRow 26).getID = none ∧
    (startupRow 25).status = some .deleted ∧
    ((initializeManager 3).run [] (World.boot startupTable [])).1.eventStreams.find?
      (startupRow 25).getID = some (startupRow 25) := by
  decide

/-! ## The rows the first page moves up

A page that deletes rows moves the rows after it up by as many places, and the next page still
starts a page further on. So the rows of the second page that the first page's purge moves up
into the first are never fetched: whatever `initialize` does afterwards, they are neither
registered nor purged. -/

/-- The rows of `moved` are still in the table, and no stream is registered under their IDs. -/
def Untouched (moved : List (EventStreamSpec CT)) (w : World CT) : Prop :=
  ∀ row ∈ moved, w.streams.lookup row.getID = none ∧ w.eventStreams.find? row.getID = some row

section

variable {moved : List (EventStreamSpec CT)} {w : World CT}

theorem Untouched.deleteSpec (holds : Untouched moved w) {id : String}
    (apart : ∀ row ∈ moved, row.getID ≠ id) : Untouched moved (w.deleteSpec id) :=
  fun row member => ⟨(holds row member).1, by
    rw [deleteSpec_eventStreams, SpecTable.find?_delete, if_neg (Ne.symm (apart row member))]
    exact (holds row member).2⟩

theorem Untouched.register (holds : Untouched moved w) {spec : EventStreamSpec CT}
    (apart : ∀ row ∈ moved, row.getID ≠ spec.getID) :
    Untouched moved ((w.newEventStream spec).1.addStream w.heap.length) := fun row member => by
  rw [streams_addStream (w.getElem?_newEventStream_length spec), eventStreams_addStream, eventStreams_newEventStream,
    streams_newEventStream, AList.lookup_insert_ne (apart row member)]
  exact holds row member

/-- The first page, fetched from the table `kept ++ todo ++ rest`: whatever fails, the rows of
`rest` stay untouched, and when the page returns nil the table has lost the rows of `todo`
marked deleted. -/
theorem initializePage_wp_firstPage (todo : List (EventStreamSpec CT))
    {kept rest : List (EventStreamSpec CT)} (inRest : moved ⊆ rest)
    (shape : w.eventStreams.rows = kept ++ todo ++ rest) (holds : Untouched moved w) :
    (initializePage todo).wp (fun w' result _ => Untouched moved w' ∧ (result = .ok () →
      w'.eventStreams.rows = kept ++ todo.filter (fun row => row.status ≠ some .deleted) ++ rest))
      w := by
  induction todo generalizing kept w with
  | nil => exact ⟨holds, fun _ => by simpa using shape⟩
  | cons row todo inductionHypothesis =>
      rw [List.append_assoc, List.cons_append] at shape
      have distinct := w.eventStreams.distinct
      rw [shape] at distinct
      have apart : ∀ other ∈ moved, other.getID ≠ row.getID := fun other member =>
        SpecTable.getID_ne_of_distinct distinct
          (List.mem_append_right _ (List.mem_append_right _ (inRest member)))
      rw [initializePage_cons_wp]
      split
      case isTrue deleted =>
        have shape' : (w.deleteSpec row.getID).eventStreams.rows = kept ++ todo ++ rest := by
          simp only [deleteSpec_eventStreams, SpecTable.delete, shape,
            SpecTable.filter_getID_ne_of_distinct distinct, List.append_assoc]
        refine ⟨⟨holds, nofun⟩, wp_mono (inductionHypothesis shape' (holds.deleteSpec apart))
          fun w' result _ ⟨untouched, shaped⟩ => ⟨untouched, fun ok => ?_⟩⟩
        rw [shaped ok, List.filter_cons_of_neg (by simpa using deleted)]
      case isFalse live =>
        have shape' : ((w.newEventStream row).1.addStream w.heap.length).eventStreams.rows =
            kept ++ [row] ++ todo ++ rest := by
          simp [shape]
        refine ⟨⟨holds, nofun⟩, wp_mono (inductionHypothesis shape' (holds.register apart))
          fun w' result _ ⟨untouched, shaped⟩ => ⟨untouched, fun ok => ?_⟩⟩
        rw [shaped ok, List.filter_cons_of_pos (by simpa using live)]
        simp

/-- A page fetched past the first `pageSize` rows deletes none of them, and rows among them
stay untouched. -/
theorem initializePage_wp_later (page : List (EventStreamSpec CT))
    {front : List (EventStreamSpec CT)} (inFront : moved ⊆ front)
    (apart : ∀ row ∈ page, ∀ other ∈ front, other.getID ≠ row.getID)
    (holds : w.eventStreams.rows.take pageSize = front ∧ Untouched moved w) :
    (initializePage page).wp (fun w' _ _ =>
      w'.eventStreams.rows.take pageSize = front ∧ Untouched moved w') w := by
  induction page generalizing w with
  | nil => exact holds
  | cons row page inductionHypothesis =>
      have later := fun other member => apart other (List.mem_cons_of_mem row member)
      have apartRow := apart row (List.mem_cons_self _ _)
      have apartMoved : ∀ other ∈ moved, other.getID ≠ row.getID :=
        fun other member => apartRow other (inFront member)
      rw [initializePage_cons_wp]
      split
      case isTrue =>
        refine ⟨holds, inductionHypothesis later ⟨?_, holds.2.deleteSpec apartMoved⟩⟩
        rw [deleteSpec_eventStreams, SpecTable.take_delete _ _ fun other member =>
          apartRow other (holds.1 ▸ member), holds.1]
      case isFalse =>
        exact ⟨holds, inductionHypothesis later ⟨by simpa using holds.1, holds.2.register apartMoved⟩⟩

/-- From the second page on, the first `pageSize` rows are never fetched, so rows among them
stay untouched whatever fails. -/
theorem initializeFrom_wp_later (fuel skip : Nat) (past : pageSize ≤ skip)
    {front : List (EventStreamSpec CT)} (inFront : moved ⊆ front)
    (holds : w.eventStreams.rows.take pageSize = front ∧ Untouched moved w) :
    (initializeFrom fuel skip).wp (fun w' _ _ => Untouched moved w') w := by
  induction fuel generalizing skip w with
  | zero => exact holds.2
  | succ fuel inductionHypothesis =>
      rw [initializeFrom_succ_wp]
      refine ⟨holds.2, ?_⟩
      split
      case isTrue => exact holds.2
      case isFalse =>
        have apart : ∀ row ∈ w.eventStreams.getMany skip pageSize, ∀ other ∈ front,
            other.getID ≠ row.getID := fun row fetched other member => by
          have behind := List.mem_of_mem_take fetched
          rw [← Nat.add_sub_cancel' past, ← List.drop_drop] at behind
          exact w.eventStreams.getID_ne_of_mem_take_of_mem_drop (holds.1 ▸ member)
            (List.mem_of_mem_drop behind)
        refine wp_mono (initializePage_wp_later _ inFront apart holds) fun w' result _ kept => ?_
        cases result with
        | error => exact kept.2
        | ok =>
            exact wp_mono (inductionHypothesis (skip + pageSize) (by omega) kept)
              fun _ _ _ untouched => untouched

end

/-- A page that loses its rows marked deleted takes in as many of the rows after it. -/
theorem take_countP_subset_take (first rest : List (EventStreamSpec CT))
    (fits : first.length ≤ pageSize) :
    rest.take (first.countP fun row => row.status = some .deleted) ⊆
      (first.filter (fun row => row.status ≠ some .deleted) ++ rest).take pageSize := by
  rw [List.take_append_eq_append_take]
  refine fun row member => List.mem_append_right _ (List.take_subset_take_left _ ?_ member)
  have counted := List.length_eq_countP_add_countP
    (fun row => decide (row.status = some .deleted)) first
  simp only [List.countP_eq_length_filter, ne_eq, decide_not, decide_eq_true_eq] at counted ⊢
  omega

/-- Whatever fails, `initialize` leaves untouched the rows of the second page that the first
page's purge moves up: as many as the first page has rows marked deleted. -/
theorem initializeManager_wp_untouched (fuel : Nat) (table : SpecTable CT)
    (checkpoints : List EventStreamCheckpoint) :
    (initializeManager fuel).wp (fun w' _ _ => Untouched ((table.rows.drop pageSize).take
      ((table.rows.take pageSize).countP fun row => row.status = some .deleted)) w')
      (World.boot table checkpoints) := by
  have booted : Untouched ((table.rows.drop pageSize).take
      ((table.rows.take pageSize).countP fun row => row.status = some .deleted))
      (World.boot table checkpoints) := fun row member =>
    ⟨rfl, SpecTable.find?_of_mem (List.mem_of_mem_drop (List.mem_of_mem_take member))⟩
  cases fuel with
  | zero => exact booted
  | succ fuel =>
      rw [initializeManager, initializeFrom_succ_wp]
      refine ⟨booted, ?_⟩
      split
      case isTrue => exact booted
      case isFalse =>
        have shape : (World.boot table checkpoints).eventStreams.rows =
            [] ++ table.rows.take pageSize ++ table.rows.drop pageSize := by
          simp [World.boot]
        rw [show (World.boot table checkpoints).eventStreams.getMany 0 pageSize =
          table.rows.take pageSize from rfl]
        refine wp_mono (initializePage_wp_firstPage _ (List.take_subset _ _) shape booted)
          fun w' result _ firstPage => ?_
        cases result with
        | error => exact firstPage.1
        | ok =>
            have inFront : (table.rows.drop pageSize).take ((table.rows.take pageSize).countP
                fun row => row.status = some .deleted) ⊆ w'.eventStreams.rows.take pageSize := by
              rw [firstPage.2 rfl, List.nil_append]
              exact take_countP_subset_take _ _ (List.length_take_le _ _)
            exact wp_mono (initializeFrom_wp_later fuel pageSize le_rfl inFront ⟨rfl, firstPage.1⟩)
              fun _ _ _ untouched => untouched

/-- `initialize` never fetches the rows of the second page that the first page's purge moves
up, as many as the first page has rows marked deleted: whatever fails, each is still in the
table and no stream is registered under its ID. -/
theorem initialize_skips_moved_rows (fuel : Nat) (table : SpecTable CT)
    (checkpoints : List EventStreamCheckpoint) (plan : List Bool) {row : EventStreamSpec CT}
    (moved : row ∈ (table.rows.drop pageSize).take
      ((table.rows.take pageSize).countP fun first => first.status = some .deleted)) :
    ((initializeManager fuel).run plan (World.boot table checkpoints)).1.registered row.getID =
        none ∧
      ((initializeManager fuel).run plan (World.boot table checkpoints)).1.eventStreams.find?
        row.getID = some row := by
  obtain ⟨unregistered, persisted⟩ :=
    run_of_wp (initializeManager_wp_untouched fuel table checkpoints) plan row moved
  exact ⟨by simp [World.registered, unregistered], persisted⟩

set_option maxRecDepth 4000 in
theorem initialize_skips_moved_rows_startupTable :
    startupRow 26 ∈ (startupTable.rows.drop pageSize).take
      ((startupTable.rows.take pageSize).countP fun first => first.status = some .deleted) ∧
    ((initializeManager 3).run [] (World.boot startupTable [])).1.registered (startupRow 26).getID =
        none ∧
      ((initializeManager 3).run [] (World.boot startupTable [])).1.eventStreams.find?
        (startupRow 26).getID = some (startupRow 26) :=
  ⟨by decide, initialize_skips_moved_rows 3 startupTable [] [] (by decide)⟩

/-- A spec marked deleted, left by a `DeleteStream` whose `Delete` failed, and its checkpoint. -/
def deletedSpecWorld : World Unit :=
  .boot ⟨[⟨some "a", some .deleted, none, none⟩], by decide⟩ [⟨"a", some "7"⟩]

/-- The purge of a spec marked deleted removes its row and leaves its checkpoint. -/
theorem initialize_purge_keeps_checkpoint :
    (deletedSpecWorld.eventStreams.find? "a").isSome ∧
    ((initializeManager 2).run [] deletedSpecWorld).2 = .ok (some ()) ∧
    ((initializeManager 2).run [] deletedSpecWorld).1.eventStreams.find? "a" = none ∧
    ⟨"a", some "7"⟩ ∈ ((initializeManager 2).run [] deletedSpecWorld).1.checkpoints := by
  decide

/-! ## The order of a page's requests

A page makes one request per row, in the rows' order, and `initialize` stops at the first that
fails. A row not marked deleted is built into a stream before a later row of its page that is
marked deleted is purged. -/

/-- The request `initialize` makes for one row of a page. -/
def pageRequest (esSpec : EventStreamSpec CT) : Request CT :=
  if esSpec.status = some .deleted then .eventStreamsDelete esSpec.getID else .initEventStream esSpec

theorem initializePage_wp_requests (page : List (EventStreamSpec CT)) (w : World CT) :
    (initializePage page).wp (fun _ result made => made <+: page.map pageRequest ∧
      (result = .ok () → made = page.map pageRequest)) w := by
  induction page generalizing w with
  | nil => exact ⟨List.prefix_refl _, fun _ => rfl⟩
  | cons row rest inductionHypothesis =>
      rw [initializePage_cons_wp]
      split
      all_goals
        refine ⟨by simp [pageRequest, *], wp_mono (inductionHypothesis _) fun _ result made holds =>
          ⟨by simp [pageRequest, *, holds.1], fun ok => by simp [pageRequest, *, holds.2 ok]⟩⟩

/-- Whatever fails, `initialize` starts with its first `GetMany` and then the requests of the first
page's rows in table order: all of them, or those up to one that fails and nothing after. -/
theorem initialize_first_page_in_order (fuel : Nat) (table : SpecTable CT)
    (checkpoints : List EventStreamCheckpoint) (plan : List Bool) :
    ∃ made rest, (initializeManager (fuel + 1)).requests plan (World.boot table checkpoints) =
        .eventStreamsGetMany 0 pageSize :: made ++ rest ∧
      made <+: (table.rows.take pageSize).map pageRequest ∧
      (made ≠ (table.rows.take pageSize).map pageRequest → rest = []) := by
  have ordered : (initializeFrom (fuel + 1) 0).wp (fun _ _ made => ∃ pageMade rest,
      made = .eventStreamsGetMany 0 pageSize :: pageMade ++ rest ∧
      pageMade <+: (table.rows.take pageSize).map pageRequest ∧
      (pageMade ≠ (table.rows.take pageSize).map pageRequest → rest = [])) (World.boot table checkpoints) := by
    have stopped : ∃ pageMade rest, [.eventStreamsGetMany 0 pageSize] =
        .eventStreamsGetMany 0 pageSize :: pageMade ++ rest ∧
        pageMade <+: (table.rows.take pageSize).map pageRequest ∧
        (pageMade ≠ (table.rows.take pageSize).map pageRequest → rest = ([] : List (Request CT))) :=
      ⟨[], [], rfl, List.nil_prefix, fun _ => rfl⟩
    rw [initializeFrom_succ_wp]
    refine ⟨stopped, ?_⟩
    split
    · exact stopped
    · refine wp_mono (initializePage_wp_requests _ _) fun w' result made holds => ?_
      cases result with
      | error => exact ⟨made, [], by simp, holds.1, fun _ => rfl⟩
      | ok =>
          refine wp_mono (wp_of_invariant (fun _ _ (_ : True) => trivial) (fun _ _ _ => trivial) _ trivial)
            fun _ _ rest _ => ⟨made, rest, by simp, holds.1, fun shorter => absurd (holds.2 rfl) shorter⟩
  exact run_of_wp ordered plan

/-- Two rows on one page: `"a"`, started, then `"b"`, marked deleted. -/
def liveThenDeleted : SpecTable Unit :=
  ⟨[⟨some "a", some .started, none, none⟩, ⟨some "b", some .deleted, none, none⟩], by decide⟩

example : (initializeManager 2).requests [] (World.boot liveThenDeleted []) =
    [.eventStreamsGetMany 0 pageSize, .initEventStream ⟨some "a", some .started, none, none⟩,
      .eventStreamsDelete "b", .eventStreamsGetMany 25 pageSize] := by
  decide

/-- Every request of the page loop, from a table whose rows are among those of `table`: a
`GetMany` of a page, or the request of a row of `table`. -/
theorem initializeFrom_wp_madeFromTable {table : SpecTable CT} (fuel skip : Nat) {w : World CT}
    (shrunk : w.eventStreams.rows.Sublist table.rows) :
    (initializeFrom fuel skip).wp (fun _ _ made => ∀ request ∈ made,
      (∃ skip, request = .eventStreamsGetMany skip pageSize) ∨
        ∃ row ∈ table.rows, request = pageRequest row) w := by
  induction fuel generalizing skip w with
  | zero => exact nofun
  | succ fuel inductionHypothesis =>
      have getMany : ∀ request ∈ [(Request.eventStreamsGetMany skip pageSize : Request CT)],
          (∃ skip, request = .eventStreamsGetMany skip pageSize) ∨
            ∃ row ∈ table.rows, request = pageRequest row := by
        simp
      rw [initializeFrom_succ_wp]
      refine ⟨getMany, ?_⟩
      split
      · exact getMany
      · have fetched : ∀ row ∈ w.eventStreams.getMany skip pageSize, row ∈ table.rows :=
          fun row member => shrunk.subset
            ((List.take_sublist _ _).trans (List.drop_sublist _ _) |>.subset member)
        refine wp_mono (wp_and (initializePage_wp_requests _ w) (initializePage_wp_sublist _ w))
          fun w' result made ⟨page, shrunk'⟩ => ?_
        have fromPage : ∀ request ∈ made, ∃ row ∈ table.rows, request = pageRequest row :=
          fun request member => by
            obtain ⟨row, listed, rfl⟩ := List.mem_map.mp (page.1.subset member)
            exact ⟨row, fetched row listed, rfl⟩
        cases result with
        | error =>
            rintro request (_ | ⟨_, member⟩)
            exacts [.inl ⟨skip, rfl⟩, .inr (fromPage request member)]
        | ok =>
            refine wp_mono (inductionHypothesis _ (shrunk'.trans shrunk)) fun _ _ rest later => ?_
            rintro request (_ | ⟨_, member⟩)
            · exact .inl ⟨skip, rfl⟩
            · rcases List.mem_append.mp member with early | late
              exacts [.inr (fromPage request early), later request late]

/-- The manager's own requests in `initialize` never touch the checkpoints. Whatever the table,
whatever fails and however many pages it reads, each request it makes is a `GetMany` of a page,
a `Delete` of a row of the table it started from that is marked deleted, or an `initEventStream`
of a row of that table not marked deleted: a purged row keeps its checkpoint. -/
theorem initialize_requests_from_table (fuel : Nat) (table : SpecTable CT)
    (checkpoints : List EventStreamCheckpoint) (plan : List Bool) :
    ∀ request ∈ (initializeManager fuel).requests plan (World.boot table checkpoints),
      (∃ skip, request = .eventStreamsGetMany skip pageSize) ∨
        ∃ row ∈ table.rows, request = pageRequest row :=
  run_of_wp (initializeFrom_wp_madeFromTable fuel 0 (List.Sublist.refl _)) plan

theorem initialize_requests_from_table_liveThenDeleted :
    .eventStreamsDelete "b" ∈ (initializeManager 2).requests [] (World.boot liveThenDeleted []) ∧
    ((∃ skip, (.eventStreamsDelete "b" : Request Unit) = .eventStreamsGetMany skip pageSize) ∨
      ∃ row ∈ liveThenDeleted.rows, .eventStreamsDelete "b" = pageRequest row) :=
  have made : .eventStreamsDelete "b" ∈
      (initializeManager 2).requests [] (World.boot liveThenDeleted []) := by decide
  ⟨made, initialize_requests_from_table 2 liveThenDeleted [] [] _ made⟩

/-! ## Activity

`initialize` builds each stream with `initEventStream`, which starts it when its persisted status
is `started` (spec §4.5), and registers it. It calls no `ensureActive` and ends no stream. -/

/-- Every stream object `initialize` builds runs exactly when its status is `started`. -/
theorem initializeFrom_wp_honoured (fuel skip : Nat) (w : World CT)
    (honoured : ∀ stream ∈ w.heap, stream.active = decide (stream.spec.status = some .started)) :
    (initializeFrom fuel skip).wp (fun w' _ _ => ∀ stream ∈ w'.heap,
      stream.active = decide (stream.spec.status = some .started)) w :=
  initializeFrom_wp_invariant (fun _ _ honoured => honoured) (fun w esSpec honoured stream built => by
    rw [heap_addStream, newEventStream, List.mem_append, List.mem_singleton] at built
    rcases built with kept | rfl
    · exact honoured stream kept
    · rfl) fuel skip honoured

end FireflyCommon.EventStreams
