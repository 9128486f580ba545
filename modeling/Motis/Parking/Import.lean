import Mathlib.Data.List.Nodup
import Motis.Lib.Runs
import Motis.Parking.FootEdges

/-! Imports of parking lots, one after the other over the same database.

    An import is skipped when `import.ini` holds its import state; otherwise it stores the lots of
    the OSM file and computes the edges of the pairs of lots and profiles that are not kept:

        same import state ──▶ skip
        else: add_parking_lots ─▶ tasks ─▶ compute_edges, one transaction each ─▶ import.ini

    A failed import has stored the edges of some of its tasks, and leaves the `import.ini` of an
    earlier one in place. Besides what the database holds, a run records from which inputs it was
    computed. -/

namespace Motis.Parking
open Runs

/-- What lots and edges are computed from. -/
structure ImportSources (Graph Pos Opts : Type) where
  osmParkingLots : List (ParkingLot Pos)
  stations : StationLookup Pos
  rg : Graph
  /-- The profile files; their duration limits are overwritten. -/
  pprProfiles : List (String × SearchProfile Opts)
  /-- In minutes. -/
  maxWalkDuration : ℤ
  pprExact : Bool
  /-- An OSM file holds an object once. -/
  nodup : (osmParkingLots.map (·.info.key)).Nodup
  nodup_profiles : (pprProfiles.map (·.1)).Nodup

/-- An import as the module meets it: the sources, and what the events before it say of them. -/
structure ImportRequest (Graph Pos Opts : Type) where
  osmPath : String
  osmHash : UInt64
  osmSize : ℕ
  pprGraphPath : String
  pprGraphHash : UInt64
  pprGraphSize : ℕ
  pprProfilesHash : UInt64
  scheduleHash : UInt64
  sources : ImportSources Graph Pos Opts

structure ImportState where
  osmPath : String
  osmHash : UInt64
  osmSize : ℕ
  pprGraphPath : String
  pprGraphHash : UInt64
  pprGraphSize : ℕ
  pprProfilesHash : UInt64
  maxWalkDuration : ℤ
  scheduleHash : UInt64
  importOsm : Bool
  deriving DecidableEq, Repr

variable {Graph Pos Opts : Type}

/-- With `import_osm` on. -/
def ImportRequest.state (r : ImportRequest Graph Pos Opts) : ImportState where
  osmPath := r.osmPath
  osmHash := r.osmHash
  osmSize := r.osmSize
  pprGraphPath := r.pprGraphPath
  pprGraphHash := r.pprGraphHash
  pprGraphSize := r.pprGraphSize
  pprProfilesHash := r.pprProfilesHash
  maxWalkDuration := r.sources.maxWalkDuration
  scheduleHash := r.scheduleHash
  importOsm := true

/-- The profiles with the walk duration as their limit. -/
def ImportSources.profiles (src : ImportSources Graph Pos Opts) :
    List (String × SearchProfile Opts) :=
  src.pprProfiles.map fun p => (p.1, { p.2 with durationLimit := src.maxWalkDuration * 60 })

/-- What the edges of a lot and a profile depend on. -/
def ImportSources.inputs (src : ImportSources Graph Pos Opts) (lot : ParkingLot Pos)
    (profile : SearchProfile Opts) : EdgeInputs Graph Pos Opts :=
  ⟨src.rg, lot.location, src.stations lot.location (walkRadius profile), profile, src.pprExact⟩

structure ParkingDb (Graph Pos Opts : Type) where
  lots : LotTables Pos := {}
  edges : FootEdgeTables := {}
  ini : Option ImportState := none
  /-- The inputs the stored edges were computed from. -/
  origin : FootEdgesKey → Option (EdgeInputs Graph Pos Opts) := fun _ => none
  /-- The sources of the import that wrote `ini`. -/
  written : Option (ImportSources Graph Pos Opts) := none
  /-- A failed import has stored edges since. -/
  dirty : Bool := false
  /-- The sources of the last import, if it was successful. -/
  current : Option (ImportSources Graph Pos Opts) := none

/-- Tasks with the profiles they name. -/
abbrev Tasks (Pos Opts : Type) := List (FootEdgeTask Pos × SearchProfile Opts)

inductive ImportOutcome (Pos Opts : Type) where
  /-- The tasks in the order in which the threads finish them. -/
  | succeeds (done : Tasks Pos Opts)
  | failsEarly
  /-- With the tasks that were finished before. -/
  | fails (done : Tasks Pos Opts)

structure ImportEvent (Graph Pos Opts : Type) where
  request : ImportRequest Graph Pos Opts
  outcome : ImportOutcome Pos Opts

/-- The database after `add_parking_lots`, and the lots with their ids. -/
def ParkingDb.storeLots (db : ParkingDb Graph Pos Opts) (src : ImportSources Graph Pos Opts) :
    AddLots Pos :=
  addParkingLots db.lots db.lots.highestId src.osmParkingLots

def ParkingDb.tasks (db : ParkingDb Graph Pos Opts) (src : ImportSources Graph Pos Opts) :
    Tasks Pos Opts :=
  db.edges.getFootEdgeTasks src.stations (db.storeLots src).lots src.profiles

section Imports
variable (findRoutes : FindRoutes Graph Pos Opts)

def ParkingDb.runTask (src : ImportSources Graph Pos Opts) (db : ParkingDb Graph Pos Opts)
    (task : FootEdgeTask Pos × SearchProfile Opts) : ParkingDb Graph Pos Opts :=
  { db with
    edges := db.edges.putFootedges (computeEdges findRoutes src.rg task.1 task.2 src.pprExact)
      task.1.stationsInRadius
    origin := Function.update db.origin (task.1.parkingLot.id, task.1.pprProfile)
      (some ⟨src.rg, task.1.parkingLot.location, task.1.stationsInRadius, task.2,
        src.pprExact⟩) }

/-- The database once the lots are stored and the tasks are done. -/
def ParkingDb.run (db : ParkingDb Graph Pos Opts) (src : ImportSources Graph Pos Opts)
    (done : Tasks Pos Opts) : ParkingDb Graph Pos Opts :=
  done.foldl (ParkingDb.runTask findRoutes src) { db with lots := (db.storeLots src).txn }

def ParkingDb.import (db : ParkingDb Graph Pos Opts) (e : ImportEvent Graph Pos Opts) :
    ParkingDb Graph Pos Opts :=
  let src := e.request.sources
  if db.ini = some e.request.state then
    match e.outcome with
    | .succeeds _ => { db with current := some src }
    | _ => { db with current := none }
  else
    match e.outcome with
    | .succeeds done =>
      { db.run findRoutes src done with
        ini := some e.request.state
        written := some src
        dirty := false
        current := some src }
    | .failsEarly => { db with current := none }
    | .fails done =>
      { db.run findRoutes src done with
        dirty := db.dirty || !done.isEmpty
        current := none }

/-- All tasks are done in a successful import, some in a failed one. -/
def ImportEvent.Enabled (db : ParkingDb Graph Pos Opts) (e : ImportEvent Graph Pos Opts) : Prop :=
  db.ini = some e.request.state ∨
    match e.outcome with
    | .succeeds done => done.Perm (db.tasks e.request.sources)
    | .failsEarly => True
    | .fails done => done.Subperm (db.tasks e.request.sources)

def imports : System (ParkingDb Graph Pos Opts) (ImportEvent Graph Pos Opts) where
  enabled := fun db e => e.Enabled db
  step := fun db e => db.import findRoutes e

/-- The edges of all pairs are stored, and were computed from these sources. -/
def FreshFor (db : ParkingDb Graph Pos Opts) (src : ImportSources Graph Pos Opts) : Prop :=
  ∀ lot ∈ src.osmParkingLots, ∀ profile ∈ src.profiles, ∃ id,
    db.lots.lotIds lot.info.key = some id ∧
      db.edges.footedges (id, profile.1) = some (computeEdges findRoutes src.rg
        (footEdgeTask src.stations { lot with id := id } profile) profile.2 src.pprExact) ∧
      db.origin (id, profile.1) = some (src.inputs lot profile.2)

/-- After a successful import everything is fresh. -/
def Fresh (db : ParkingDb Graph Pos Opts) : Prop :=
  ∀ src, db.current = some src → FreshFor findRoutes db src

end Imports

/-- The checks do not miss a change: an import is skipped after one with the same sources and no
    edges stored in between, and edges are kept that were computed from the same inputs. -/
def ChecksSuffice (db : ParkingDb Graph Pos Opts) (e : ImportEvent Graph Pos Opts) : Prop :=
  let src := e.request.sources
  match e.outcome with
  | .succeeds _ =>
    if db.ini = some e.request.state then db.dirty = false ∧ db.written = some src
    else ∀ lot ∈ src.osmParkingLots, ∀ profile ∈ src.profiles, ∀ id,
      db.lots.lotIds lot.info.key = some id →
      db.edges.reachableStations (id, profile.1) =
        some (serializeReachableStations (src.inputs lot profile.2).stations) →
      db.origin (id, profile.1) = some (src.inputs lot profile.2)
  | _ => True

/-! ### The invariant -/

section Invariant
variable {findRoutes : FindRoutes Graph Pos Opts} {db : ParkingDb Graph Pos Opts}
  {src : ImportSources Graph Pos Opts} {key : FootEdgesKey}

/-- Under a key either nothing is stored, or what was computed from the recorded inputs. -/
def EntryOk (findRoutes : FindRoutes Graph Pos Opts) (db : ParkingDb Graph Pos Opts)
    (key : FootEdgesKey) : Prop :=
  (db.edges.footedges key = none ∧ db.edges.reachableStations key = none) ∨
    ∃ inputs : EdgeInputs Graph Pos Opts, db.origin key = some inputs ∧
      db.edges.footedges key = some (inputs.footEdges findRoutes key) ∧
      db.edges.reachableStations key = some (serializeReachableStations inputs.stations)

structure Consistent (findRoutes : FindRoutes Graph Pos Opts) (db : ParkingDb Graph Pos Opts) :
    Prop where
  ids : IdsOk db.lots db.lots.highestId
  entries : ∀ key, EntryOk findRoutes db key
  known : ∀ key, db.edges.footedges key ≠ none → key.1 ≤ db.lots.highestId
  written : ∀ src, db.written = some src → db.dirty = false → FreshFor findRoutes db src
  fresh : Fresh findRoutes db

theorem consistent_init : Consistent findRoutes ({} : ParkingDb Graph Pos Opts) where
  ids := ⟨nofun, nofun, nofun, rfl⟩
  entries _ := .inl ⟨rfl, rfl⟩
  known _ h := absurd rfl h
  written _ h := nomatch h
  fresh _ h := nomatch h

/-! ### Tasks -/

def taskKey (task : FootEdgeTask Pos × SearchProfile Opts) : FootEdgesKey :=
  (task.1.parkingLot.id, task.1.pprProfile)

/-- The entry under the key is that of the task. -/
def EntryOf (findRoutes : FindRoutes Graph Pos Opts) (src : ImportSources Graph Pos Opts)
    (db : ParkingDb Graph Pos Opts) (task : FootEdgeTask Pos × SearchProfile Opts) : Prop :=
  db.edges.footedges (taskKey task) =
      some (computeEdges findRoutes src.rg task.1 task.2 src.pprExact) ∧
    db.origin (taskKey task) = some ⟨src.rg, task.1.parkingLot.location, task.1.stationsInRadius,
      task.2, src.pprExact⟩ ∧
    db.edges.reachableStations (taskKey task) =
      some (serializeReachableStations task.1.stationsInRadius)

/-- The entry under the key is the same in both. -/
def SameEntry (key : FootEdgesKey) (db db' : ParkingDb Graph Pos Opts) : Prop :=
  db'.edges.footedges key = db.edges.footedges key ∧ db'.origin key = db.origin key ∧
    db'.edges.reachableStations key = db.edges.reachableStations key

theorem entryOf_runTask (db : ParkingDb Graph Pos Opts)
    (task : FootEdgeTask Pos × SearchProfile Opts) :
    EntryOf findRoutes src (db.runTask findRoutes src task) task :=
  ⟨Function.update_self .., Function.update_self .., Function.update_self ..⟩

theorem sameEntry_runTask {task : FootEdgeTask Pos × SearchProfile Opts} (h : taskKey task ≠ key) :
    SameEntry key db (db.runTask findRoutes src task) :=
  ⟨Function.update_of_ne h.symm .., Function.update_of_ne h.symm ..,
    Function.update_of_ne h.symm ..⟩

theorem sameEntry_foldl {done : Tasks Pos Opts} (h : ∀ task ∈ done, taskKey task ≠ key) :
    SameEntry key db (done.foldl (ParkingDb.runTask findRoutes src) db) := by
  induction done generalizing db with
  | nil => exact ⟨rfl, rfl, rfl⟩
  | cons task done ih =>
    obtain ⟨htask, hrest⟩ := List.forall_mem_cons.mp h
    obtain ⟨hfoot, horigin, hreach⟩ := @ih (db.runTask findRoutes src task) hrest
    obtain ⟨hfoot', horigin', hreach'⟩ :=
      @sameEntry_runTask _ _ _ findRoutes db src key task htask
    exact ⟨hfoot.trans hfoot', horigin.trans horigin', hreach.trans hreach'⟩

/-- A task is the only one with its key: its edges are what is stored in the end. -/
theorem entryOf_foldl {done : Tasks Pos Opts} {task : FootEdgeTask Pos × SearchProfile Opts}
    (hmem : task ∈ done) (hunique : ∀ t ∈ done, taskKey t = taskKey task → t = task) :
    EntryOf findRoutes src (done.foldl (ParkingDb.runTask findRoutes src) db) task := by
  induction done using List.reverseRecOn with
  | nil => cases hmem
  | append_singleton done last ih =>
    rw [List.foldl_append]
    by_cases hkey : taskKey last = taskKey task
    · have hlast : last = task := hunique last (by simp) hkey
      rw [← hlast]
      exact entryOf_runTask _ last
    · have hdone : task ∈ done := by
        rcases List.mem_append.mp hmem with hdone | hlast
        · exact hdone
        · exact absurd (congrArg taskKey (List.mem_singleton.mp hlast)).symm hkey
      obtain ⟨hfoot, horigin, hreach⟩ :=
        ih hdone fun t ht => hunique t (List.mem_append_left _ ht)
      obtain ⟨hfoot', horigin', hreach'⟩ := @sameEntry_runTask _ _ _ findRoutes
        (done.foldl (ParkingDb.runTask findRoutes src) db) src (taskKey task) last hkey
      exact ⟨hfoot'.trans hfoot, horigin'.trans horigin, hreach'.trans hreach⟩

theorem entries_foldl {done : Tasks Pos Opts} (h : ∀ key, EntryOk findRoutes db key)
    (key : FootEdgesKey) :
    EntryOk findRoutes (done.foldl (ParkingDb.runTask findRoutes src) db) key := by
  induction done using List.reverseRecOn with
  | nil => exact h key
  | append_singleton done last ih =>
    rw [List.foldl_append]
    by_cases hkey : taskKey last = key
    · obtain ⟨hfoot, horigin, hreach⟩ := @entryOf_runTask _ _ _ findRoutes src
        (done.foldl (ParkingDb.runTask findRoutes src) db) last
      exact hkey ▸ .inr ⟨_, horigin, hfoot, hreach⟩
    · obtain ⟨hfoot, horigin, hreach⟩ := @sameEntry_runTask _ _ _ findRoutes
        (done.foldl (ParkingDb.runTask findRoutes src) db) src key last hkey
      rw [List.foldl_cons, List.foldl_nil, EntryOk, hfoot, horigin, hreach]
      exact ih

@[simp] theorem lots_foldl (done : Tasks Pos Opts) :
    (done.foldl (ParkingDb.runTask findRoutes src) db).lots = db.lots := by
  induction done generalizing db with
  | nil => rfl
  | cons task done ih => exact ih

theorem mem_tasks {task : FootEdgeTask Pos × SearchProfile Opts} :
    task ∈ db.tasks src ↔ ∃ profile ∈ src.profiles, ∃ pl ∈ (db.storeLots src).lots,
      ¬ db.edges.keeps (footEdgeTask src.stations pl profile) = true ∧
        (footEdgeTask src.stations pl profile, profile.2) = task := by
  simp [ParkingDb.tasks, FootEdgeTables.getFootEdgeTasks, List.mem_flatMap, List.mem_filterMap]

/-- Lots with one id are one lot. -/
theorem lot_unique (hids : IdsOk db.lots db.lots.highestId) {pl pl' : ParkingLot Pos}
    (hpl : pl ∈ (db.storeLots src).lots) (hpl' : pl' ∈ (db.storeLots src).lots)
    (hid : pl.id = pl'.id) : pl = pl' := by
  have hreturned := returned_addParkingLots db.lots db.lots.highestId src.osmParkingLots
  obtain ⟨lot, hlot, hkey, heq⟩ := hreturned.mem pl hpl
  obtain ⟨lot', hlot', hkey', heq'⟩ := hreturned.mem pl' hpl'
  rw [← hid] at hkey'
  have hkeys : lot.info.key = lot'.info.key :=
    (hids.addParkingLots src.osmParkingLots).inj _ _ _ hkey hkey'
  rw [heq, heq', List.inj_on_of_nodup_map src.nodup hlot hlot' hkeys, hid]

theorem profile_unique {profile profile' : String × SearchProfile Opts}
    (h : profile ∈ src.profiles) (h' : profile' ∈ src.profiles) (hname : profile.1 = profile'.1) :
    profile = profile' := by
  have hnodup : (src.profiles.map (·.1)).Nodup := by
    rw [ImportSources.profiles, List.map_map]
    exact src.nodup_profiles
  exact List.inj_on_of_nodup_map hnodup h h' hname

/-- A task with the key of a lot and a profile is the task of these. -/
theorem task_unique (hids : IdsOk db.lots db.lots.highestId) {pl : ParkingLot Pos}
    (hpl : pl ∈ (db.storeLots src).lots) {profile : String × SearchProfile Opts}
    (hprofile : profile ∈ src.profiles) {task : FootEdgeTask Pos × SearchProfile Opts}
    (htask : task ∈ db.tasks src) (hkey : taskKey task = (pl.id, profile.1)) :
    ¬ db.edges.keeps (footEdgeTask src.stations pl profile) = true ∧
      task = (footEdgeTask src.stations pl profile, profile.2) := by
  obtain ⟨profile', hprofile', pl', hpl', hkeeps, rfl⟩ := mem_tasks.mp htask
  obtain ⟨hid, hname⟩ := Prod.mk.inj hkey
  obtain rfl := lot_unique hids hpl' hpl hid
  obtain rfl := profile_unique hprofile' hprofile hname
  exact ⟨hkeeps, rfl⟩

/-- All tasks done, and the entries that are kept computed from the same inputs: everything is
    fresh. -/
theorem freshFor_run (h : Consistent findRoutes db) {done : Tasks Pos Opts}
    (hdone : done.Perm (db.tasks src))
    (hkept : ∀ lot ∈ src.osmParkingLots, ∀ profile ∈ src.profiles, ∀ id,
      db.lots.lotIds lot.info.key = some id →
      db.edges.reachableStations (id, profile.1) =
        some (serializeReachableStations (src.inputs lot profile.2).stations) →
      db.origin (id, profile.1) = some (src.inputs lot profile.2)) :
    FreshFor findRoutes (db.run findRoutes src done) src := by
  intro lot hlot profile hprofile
  obtain ⟨id, hid, hpl⟩ :=
    (returned_addParkingLots db.lots db.lots.highestId src.osmParkingLots).exists_id lot hlot
  have hunique : ∀ task ∈ done, taskKey task = (id, profile.1) →
      ¬ db.edges.keeps (footEdgeTask src.stations { lot with id := id } profile) = true ∧
        task = (footEdgeTask src.stations { lot with id := id } profile, profile.2) :=
    fun task htask => task_unique h.ids hpl hprofile (hdone.subset htask)
  refine ⟨id, by rw [ParkingDb.run, lots_foldl]; exact hid, ?_⟩
  by_cases hkeeps : db.edges.keeps (footEdgeTask src.stations { lot with id := id } profile) = true
  · -- kept: nothing is put under the key, and the check is to be trusted
    obtain ⟨hreach, hfoot⟩ := (Bool.and_eq_true _ _).mp hkeeps
    obtain ⟨fe, hfe⟩ : ∃ fe, db.edges.footedges (id, profile.1) = some fe :=
      Option.isSome_iff_exists.mp hfoot
    have hsame : SameEntry (id, profile.1) db (db.run findRoutes src done) :=
      sameEntry_foldl fun task htask hkey => (hunique task htask hkey).1 hkeeps
    obtain ⟨fresh, hadded⟩ := added_addParkingLots h.ids.tables_le src.osmParkingLots
    have hold : db.lots.lotIds lot.info.key = some id :=
      hadded.lotIds_of_le hid (h.known (id, profile.1) (by rw [hfe]; simp))
    have horigin := hkept lot hlot profile hprofile id hold (eq_of_beq hreach)
    rw [hsame.1, hsame.2.1]
    rcases h.entries (id, profile.1) with ⟨hnone, -⟩ | ⟨inputs, horigin', hfoot', -⟩
    · rw [hfe] at hnone
      cases hnone
    · rw [horigin] at horigin'
      obtain rfl := Option.some.inj horigin'
      exact ⟨hfoot', horigin⟩
  · have htask : (footEdgeTask src.stations { lot with id := id } profile, profile.2) ∈ done :=
      hdone.mem_iff.mpr (mem_tasks.mpr ⟨profile, hprofile, _, hpl, hkeeps, rfl⟩)
    obtain ⟨hfoot, horigin, -⟩ := @entryOf_foldl _ _ _ findRoutes
      { db with lots := (db.storeLots src).txn } src done _ htask
      fun task htask hkey => (hunique task htask hkey).2
    exact ⟨hfoot, horigin⟩

/-! ### Steps -/

theorem FreshFor.of_lots {db' : ParkingDb Graph Pos Opts} (h : FreshFor findRoutes db src)
    (hlots : ∀ key id, db.lots.lotIds key = some id → db'.lots.lotIds key = some id)
    (hedges : db'.edges = db.edges) (horigin : db'.origin = db.origin) :
    FreshFor findRoutes db' src := by
  intro lot hlot profile hprofile
  obtain ⟨id, hid, hfresh⟩ := h lot hlot profile hprofile
  exact ⟨id, hlots _ _ hid, hedges ▸ horigin ▸ hfresh⟩

/-- A failed import leaves nothing to be fresh. -/
theorem Consistent.failed (h : Consistent findRoutes db) :
    Consistent findRoutes { db with current := none } :=
  { h with fresh := nofun }

/-- Lots and entries after some of the tasks. -/
theorem Consistent.run (h : Consistent findRoutes db) {done : Tasks Pos Opts}
    (hdone : done.Subset (db.tasks src)) :
    IdsOk (db.run findRoutes src done).lots (db.run findRoutes src done).lots.highestId ∧
      (∀ key, EntryOk findRoutes (db.run findRoutes src done) key) ∧
      ∀ key, (db.run findRoutes src done).edges.footedges key ≠ none →
        key.1 ≤ (db.run findRoutes src done).lots.highestId := by
  have hids := h.ids.addParkingLots src.osmParkingLots
  have hlots : (db.run findRoutes src done).lots = (db.storeLots src).txn := by
    rw [ParkingDb.run, lots_foldl]
  have hhighest : (db.storeLots src).txn.highestId = (db.storeLots src).highest := hids.highestId
  rw [hlots, hhighest]
  refine ⟨hids, entries_foldl h.entries, fun key hkey => ?_⟩
  by_cases htask : ∃ task ∈ done, taskKey task = key
  · obtain ⟨task, hmem, rfl⟩ := htask
    obtain ⟨profile, -, pl, hpl, -, rfl⟩ := mem_tasks.mp (hdone hmem)
    obtain ⟨lot, -, hid, -⟩ :=
      (returned_addParkingLots db.lots db.lots.highestId src.osmParkingLots).mem pl hpl
    exact hids.le _ _ hid
  · have hsame : SameEntry key db (db.run findRoutes src done) :=
      sameEntry_foldl fun task hmem hkey => htask ⟨task, hmem, hkey⟩
    rw [hsame.1] at hkey
    obtain ⟨fresh, hadded⟩ := added_addParkingLots h.ids.tables_le src.osmParkingLots
    have hle := h.known key hkey
    have hgrown := hadded.highest
    change (db.storeLots src).highest = _ at hgrown
    omega

theorem Consistent.step (h : Consistent findRoutes db) {e : ImportEvent Graph Pos Opts}
    (henabled : e.Enabled db) (hchecks : ChecksSuffice db e) :
    Consistent findRoutes (db.import findRoutes e) := by
  obtain ⟨request, outcome⟩ := e
  by_cases hini : db.ini = some request.state
  · simp only [ParkingDb.import, if_pos hini]
    cases outcome with
    | succeeds done =>
      simp only [ChecksSuffice, if_pos hini] at hchecks
      refine { h with fresh := fun src hsrc => ?_ }
      obtain rfl := Option.some.inj hsrc
      exact h.written _ hchecks.2 hchecks.1
    | failsEarly => exact h.failed
    | fails done => exact h.failed
  · simp only [ParkingDb.import, if_neg hini]
    have hdone := henabled.resolve_left hini
    cases outcome with
    | failsEarly => exact h.failed
    | succeeds done =>
      simp only [ChecksSuffice, if_neg hini] at hchecks
      have hfresh := freshFor_run h hdone hchecks
      obtain ⟨hids, hentries, hknown⟩ := h.run hdone.subset
      refine ⟨hids, hentries, hknown, fun src hsrc _ => ?_, fun src hsrc => ?_⟩
      · obtain rfl := Option.some.inj hsrc
        exact hfresh
      · obtain rfl := Option.some.inj hsrc
        exact hfresh
    | fails done =>
      obtain ⟨hids, hentries, hknown⟩ := h.run hdone.subset
      refine ⟨hids, hentries, hknown, fun src hsrc hclean => ?_, nofun⟩
      -- no edges were stored, only lots
      obtain ⟨hdirty, hnone⟩ := Bool.or_eq_false_iff.mp hclean
      obtain rfl : done = [] := by simpa using hnone
      obtain ⟨fresh, hadded⟩ :=
        added_addParkingLots h.ids.tables_le request.sources.osmParkingLots
      exact (h.written src hsrc hdirty).of_lots hadded.kept rfl rfl

end Invariant

/-! ### Runs -/

/-- CORRECT: in a run of imports over one database, failed ones among them, everything is fresh
    after each successful import, as long as the checks do not miss a change. -/
theorem fresh_of_checksSuffice (findRoutes : FindRoutes Graph Pos Opts)
    (es : List (ImportEvent Graph Pos Opts)) (hrun : Feasible (imports findRoutes) {} es)
    (hchecks : Each (imports findRoutes) ChecksSuffice {} es) :
    Always (imports findRoutes) (Fresh findRoutes) {} es :=
  (always_of_invariant (I := Consistent findRoutes) (fun _ _ h => h.step) consistent_init hrun
    hchecks).imp fun _ h => h.fresh

/-! A lot and a station with a way that can be walked in one direction only. -/

def oneWay : FindRoutes Unit Unit Unit := fun _ _ locations _ dir =>
  locations.map fun _ => if dir = .fwd then [⟨60, 0, 84⟩] else []

def oneLot (exact : Bool) : ImportSources Unit Unit Unit where
  osmParkingLots := [{ location := (), info := .osm { osmId := 1, osmType := .node } }]
  stations := fun _ _ => [(⟨"1", ()⟩, 80)]
  rg := ()
  pprProfiles := [("default", ⟨0, 7 / 5, ()⟩)]
  maxWalkDuration := 10
  pprExact := exact
  nodup := List.nodup_singleton _
  nodup_profiles := List.nodup_singleton _

/-- The settings, apart from `ppr_exact`, and the files are always the same. -/
def importOneLot (exact : Bool) : ImportEvent Unit Unit Unit where
  request :=
    { osmPath := "map.osm.pbf"
      osmHash := 1
      osmSize := 1
      pprGraphPath := "routing_graph.ppr"
      pprGraphHash := 2
      pprGraphSize := 2
      pprProfilesHash := 3
      scheduleHash := 4
      sources := oneLot exact }
  outcome := .succeeds (ParkingDb.tasks {} (oneLot exact))

theorem fresh_of_checksSuffice_once :
    Always (imports oneWay) (Fresh oneWay) {} [importOneLot false] :=
  fresh_of_checksSuffice oneWay [importOneLot false] ⟨.inr (.refl _), trivial⟩
    ⟨fun _ _ _ _ _ hid => (nomatch hid), trivial⟩

/-- The second import asks for exact edges, and is skipped. -/
theorem exactness_not_noticed :
    Feasible (imports oneWay) {} [importOneLot false, importOneLot true] ∧
      ¬ Always (imports oneWay) (Fresh oneWay) {} [importOneLot false, importOneLot true] := by
  refine ⟨⟨.inr (.refl _), .inl rfl, trivial⟩, fun h => ?_⟩
  obtain ⟨id, hid, hedges, -⟩ := h.last (oneLot true) rfl _ (List.mem_singleton_self _) _
    (List.mem_singleton_self _)
  obtain rfl : 1 = id := Option.some.inj hid
  have hreturn : 1 = 0 := congrArg (fun fe => (fe.map fun fe => fe.returnEdges.length).getD 0) hedges
  cases hreturn

end Motis.Parking
