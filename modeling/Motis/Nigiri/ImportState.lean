import Mathlib.Data.List.Basic
import Motis.Nigiri.Import

/-! The state an import leaves behind, and what `init` and the real-time updates need of it.

    Each round of the import's loop loads the timetable, reads it from a dump, or both:

        no_cache:  load ──▶ done
        else:      [no dump: load ─▶ write] ─▶ read ─▶ resolve time zones ─▶ real-time timetable

    The steps behind `read` are on the second path alone. `init` (for files) and the updates (for
    URLs) copy the real-time timetable and tell the railviz component about the new one. -/

namespace Motis.Nigiri
open Fallible

structure ModuleSettings extends Settings where
  lookup : Bool := true
  guesser : Bool := true
  railviz : Bool := true
  gtfsrtUrls : List String := []
  gtfsrtPaths : List String := []
  gtfsrtIncremental : Bool := false

/-- Real-time feeds are configured. -/
def ModuleSettings.feeds (s : ModuleSettings) : Bool :=
  !s.gtfsrtUrls.isEmpty || !s.gtfsrtPaths.isEmpty

/-- What is made of a timetable: real-time timetables, and components of the module. -/
structure ModuleLibrary (Tt Rtt Body View : Type) where
  resolveTimezones : Tt → Tt
  createRtTimetable : Tt → SysDays → Rtt
  /-- An exception ends an update; what it has changed so far stays. -/
  gtfsrtUpdateBuf : Tt → Rtt → SourceIdx → String → Body → Rtt
  stationLookup : TagLookup → Tt → View
  guesser : TagLookup → Tt → View
  railviz : TagLookup → Tt → View
  railvizUpdate : View → Rtt → View

structure ScheduleInfo (Hash : Type) where
  tag : String
  sha1sum : Hash
  path : String

structure NigiriImpl (Hash Tt Rtt View : Type) where
  tt : Option Tt := none
  rtt : Option Rtt := none
  tags : TagLookup := {}
  stationLookup : Option View := none
  guesser : Option View := none
  railviz : Option View := none
  schedules : List (ScheduleInfo Hash) := []
  hash : Hash

/-! ### Import -/

section Import
variable {Hash Loader Dir Tt Bitfields Dump Rtt Body View : Type}
  (hashing : Hashing Hash Loader Dir) (loaders : Loaders Loader Dir) (machine : Machine Dir)
  (lib : TimetableLibrary Loader Dir Tt Bitfields Dump) (parts : ModuleLibrary Tt Rtt Body View)
  (zero : Hash)

/-- `addSchedule` with what it keeps in the module. -/
def addScheduleImpl (acc : Hash × List (Dataset Loader Dir) × NigiriImpl Hash Tt Rtt View)
    (schedule : ImportPath × ℕ) :
    Except ImportError (Hash × List (Dataset Loader Dir) × NigiriImpl Hash Tt Rtt View) := do
  let (h, datasets, impl) := acc
  let (p, i) := schedule
  let d := machine.makeDir p.path
  match loaders.loaders.find? (loaders.applicable · d) with
  | none => throw .noLoaderApplicable
  | some loader =>
    let hash := hashing.dir loader d
    let tags ← impl.tags.add i (p.options ++ "_")
    return (hashCombine hashing h [.hash hash], datasets ++ [⟨i, loader, d⟩],
      { impl with tags := tags, schedules := impl.schedules ++ [⟨p.options, hash, p.path⟩] })

/-- `prepare` on a new `impl`, whose hash is still zero. -/
def prepareImpl (s : Settings) (paths : List ImportPath) :
    Except ImportError (Hash × List (Dataset Loader Dir) × NigiriImpl Hash Tt Rtt View) := do
  if !paths.all fun p => p.tag != "schedule" || p.options != "" then throw .noNameTag
  let h := hashCombine hashing hashing.base (settingsInputs hashing machine s)
  let schedules := paths.filter (·.tag == "schedule")
  let (h, datasets, impl) ← schedules.zipIdx.foldlM (addScheduleImpl hashing loaders machine)
    (h, [], { hash := zero })
  if datasets.isEmpty then throw .noDatasets
  return (h, datasets, impl)

variable [DecidableEq Hash]

/-- What follows on a memory image that could be read. -/
def NigiriImpl.read (s : ModuleSettings) (h : Hash) (impl : NigiriImpl Hash Tt Rtt View) (tt : Tt) :
    NigiriImpl Hash Tt Rtt View :=
  let tt := parts.resolveTimezones tt
  { impl with
    tt := some tt
    rtt := if s.feeds then some (parts.createRtTimetable tt machine.today) else impl.rtt
    hash := h }

/-- The rounds of the loop that loads the timetable. -/
def importLoop (s : ModuleSettings) (h : Hash) (scratch : Except ImportError Tt) :
    ℕ → NigiriImpl Hash Tt Rtt View → DataDir Hash Dump →
      Except ImportError (NigiriImpl Hash Tt Rtt View) × DataDir Hash Dump
  | 0, _, dataDir => (.error .loadingFailed, dataDir)
  | n + 1, impl, dataDir =>
    let readDump (impl : NigiriImpl Hash Tt Rtt View) (dataDir : DataDir Hash Dump) :=
      match (dataDir h).bind lib.read with
      | some tt => (.ok (impl.read machine parts s h tt), dataDir)
      | none =>
        importLoop s h scratch n { impl with hash := h } (Function.update dataDir h none)
    if s.noCache || (dataDir h).isNone then
      match scratch with
      | .error e => (.error e, dataDir)
      | .ok tt =>
        let impl := { impl with tt := some tt }
        if s.noCache then (.ok impl, dataDir)
        else readDump impl (Function.update dataDir h (some (lib.write tt)))
    else readDump impl dataDir

/-- The components that are asked for. -/
def NigiriImpl.components (s : ModuleSettings) (impl : NigiriImpl Hash Tt Rtt View) :
    NigiriImpl Hash Tt Rtt View :=
  { impl with
    stationLookup := if s.lookup then impl.tt.map (parts.stationLookup impl.tags) else none
    guesser := if s.guesser then impl.tt.map (parts.guesser impl.tags) else none
    railviz := if s.railviz then impl.tt.map (parts.railviz impl.tags) else none }

def importModule (s : ModuleSettings) (paths : List ImportPath) (dataDir : DataDir Hash Dump) :
    Except ImportError (NigiriImpl Hash Tt Rtt View) × DataDir Hash Dump :=
  match prepareImpl hashing loaders machine zero s.toSettings paths with
  | .error e => (.error e, dataDir)
  | .ok (h, datasets, impl) =>
    let scratch := loadAndFinalize lib s.toSettings (importInterval machine s.toSettings) datasets
    let (result, dataDir) := importLoop machine lib parts s h scratch 2 impl dataDir
    (result.map (·.components parts s), dataDir)

end Import

/-! ### Init and updates -/

inductive StartError where
  /-- A component that is not there is used. -/
  | nullDereference
  | badPath
  | tagNotFound
  | fileNotFound
  deriving DecidableEq, Repr

def deref {α : Type} (x : Option α) : Except StartError α := x.elim (.error .nullDereference) .ok

/-- What a round of updates gets: the day, and for each endpoint a body or an error. -/
structure UpdateRound (Body : Type) where
  today : SysDays
  fetched : List (Option Body)

section Start
variable {Hash Tt Rtt Body View : Type} (parts : ModuleLibrary Tt Rtt Body View)
  (files : String → Option Body)

/-- The tokens of `tag|path` and `tag|url|authorization`. -/
def feedTokens (config : String) : List String := (config.toList.splitOn '|').map String.ofList

/-- The source of a feed's tag. -/
def feedSrc (tags : TagLookup) (config : String) : Except StartError SourceIdx :=
  match tags.getSrc ((feedTokens config).getD 0 "" ++ "_") with
  | none => .error .tagNotFound
  | some src => .ok src

/-- The checks on a path of a feed. -/
def feedFile (tags : TagLookup) (config : String) : Except StartError (SourceIdx × Body) := do
  let path := (feedTokens config).getD 1 ""
  if path = "" then throw .badPath
  let src ← feedSrc tags config
  match files path with
  | none => throw .fileNotFound
  | some body => return (src, body)

def updateFromFile (tags : TagLookup) (tt : Option Tt) (rtt : Rtt) (config : String) :
    Except StartError Rtt := do
  let (src, body) ← feedFile files tags config
  let tt ← deref tt
  return parts.gtfsrtUpdateBuf tt rtt src ((feedTokens config).getD 0 "") body

/-- `update_rtt`, then `railviz_->update`. -/
def NigiriImpl.publishRtt (impl : NigiriImpl Hash Tt Rtt View) (rtt : Rtt) :
    Except StartError (NigiriImpl Hash Tt Rtt View) := do
  let railviz ← deref impl.railviz
  return { impl with rtt := some rtt, railviz := some (parts.railvizUpdate railviz rtt) }

/-- The part of `init` for real-time feeds that are files. -/
def initPaths (s : ModuleSettings) (impl : NigiriImpl Hash Tt Rtt View) :
    Except StartError (NigiriImpl Hash Tt Rtt View) :=
  if s.gtfsrtPaths.isEmpty then .ok impl
  else do
    let rtt ← deref impl.rtt
    let rtt ← s.gtfsrtPaths.foldlM (updateFromFile parts files impl.tags impl.tt) rtt
    impl.publishRtt parts rtt

def init (s : ModuleSettings) (impl : NigiriImpl Hash Tt Rtt View) :
    Except StartError (NigiriImpl Hash Tt Rtt View) := do
  let impl ← initPaths parts files s impl
  -- the profiles of the timetable become operations
  let _ ← deref impl.tt
  return impl

/-- The name of a schedule, without the underscore of its tag. -/
def getTagClean (tags : TagLookup) (src : SourceIdx) : String :=
  let tag := tags.srcToTag.getD src ""
  String.ofList tag.toList.dropLast

def updateFromEndpoint (tags : TagLookup) (tt : Option Tt) (rtt : Rtt)
    (endpoint : SourceIdx × Option Body) : Except StartError Rtt := do
  match endpoint.2 with
  | none => return rtt
  | some body =>
    let tt ← deref tt
    return parts.gtfsrtUpdateBuf tt rtt endpoint.1 (getTagClean tags endpoint.1) body

def updateGtfsrt (s : ModuleSettings) (endpoints : List SourceIdx)
    (impl : NigiriImpl Hash Tt Rtt View) (round : UpdateRound Body) :
    Except StartError (NigiriImpl Hash Tt Rtt View) := do
  let rtt ←
    if s.gtfsrtIncremental then deref impl.rtt
    else (parts.createRtTimetable · round.today) <$> deref impl.tt
  let rtt ← (endpoints.zip round.fetched).foldlM (updateFromEndpoint parts impl.tags impl.tt) rtt
  impl.publishRtt parts rtt

/-- `init`, then the rounds of the timer that `register_gtfsrt_timer` starts. -/
def start (s : ModuleSettings) (impl : NigiriImpl Hash Tt Rtt View)
    (rounds : List (UpdateRound Body)) : Except StartError (NigiriImpl Hash Tt Rtt View) := do
  let impl ← init parts files s impl
  if s.gtfsrtUrls.isEmpty then return impl
  let endpoints ← s.gtfsrtUrls.mapM (feedSrc impl.tags)
  rounds.foldlM (updateGtfsrt parts s endpoints) impl

end Start

/-! ### What is expected -/

section Expected
variable {Hash Loader Dir Tt Bitfields Dump Rtt Body View : Type}
  (hashing : Hashing Hash Loader Dir) (loaders : Loaders Loader Dir) (machine : Machine Dir)
  (lib : TimetableLibrary Loader Dir Tt Bitfields Dump) (parts : ModuleLibrary Tt Rtt Body View)
  (files : String → Option Body) (zero : Hash)

/-- The module once the timetable `scratch` has been imported under the hash `h`. -/
def imported (s : ModuleSettings) (h : Hash) (tags : TagLookup)
    (schedules : List (ScheduleInfo Hash)) (scratch : Tt) : NigiriImpl Hash Tt Rtt View :=
  let tt := parts.resolveTimezones scratch
  { tt := some tt
    rtt := if s.feeds then some (parts.createRtTimetable tt machine.today) else none
    tags := tags
    stationLookup := if s.lookup then some (parts.stationLookup tags tt) else none
    guesser := if s.guesser then some (parts.guesser tags tt) else none
    railviz := if s.railviz then some (parts.railviz tags tt) else none
    schedules := schedules
    hash := h }

/-- A successful import ends in the same state whatever the cache holds, and nothing that `init`
    or an update uses is missing. -/
def CachingIndependent [DecidableEq Hash] (s : ModuleSettings) (paths : List ImportPath) (dataDir : DataDir Hash Dump)
    (expected : NigiriImpl Hash Tt Rtt View) : Prop :=
  ∀ impl dataDir',
    importModule hashing loaders machine lib parts zero s paths dataDir = (.ok impl, dataDir') →
      impl = expected ∧ ∀ rounds, start parts files s impl rounds ≠ .error .nullDereference

/-- A feed is turned down before anything is updated from it. -/
def FeedsRejected (s : ModuleSettings) (tags : TagLookup) : Prop :=
  if s.gtfsrtPaths.isEmpty then ∃ url ∈ s.gtfsrtUrls, ∃ e, feedSrc tags url = .error e
  else ∃ path ∈ s.gtfsrtPaths, ∃ e, feedFile files tags path = .error e

structure StateComplete (s : ModuleSettings) (h : Hash) (tags : TagLookup) (scratch : Tt)
    (dataDir : DataDir Hash Dump) : Prop where
  /-- Without a cache none of the steps behind `read` may be needed. -/
  noCache : s.noCache = true → parts.resolveTimezones scratch = scratch ∧ h = zero ∧ s.feeds = false
  /-- A dump that can be read is one of these inputs. -/
  dump : s.noCache = false → ∀ tt, (dataDir h).bind lib.read = some tt →
    parts.resolveTimezones tt = parts.resolveTimezones scratch
  railviz : s.feeds = true → s.railviz = true ∨ FeedsRejected files s tags

end Expected

/-! ### The loop -/

section Loop
variable {Hash Loader Dir Tt Bitfields Dump Rtt Body View : Type}
  {hashing : Hashing Hash Loader Dir} {loaders : Loaders Loader Dir} {machine : Machine Dir}
  {lib : TimetableLibrary Loader Dir Tt Bitfields Dump} {parts : ModuleLibrary Tt Rtt Body View}
  {zero : Hash}

theorem foldlM_addScheduleImpl {schedules : List (ImportPath × ℕ)} {h h' : Hash}
    {datasets datasets' : List (Dataset Loader Dir)} {impl impl' : NigiriImpl Hash Tt Rtt View}
    (hfold : schedules.foldlM (addScheduleImpl hashing loaders machine) (h, datasets, impl) =
      .ok (h', datasets', impl')) :
    impl' = { impl with tags := impl'.tags, schedules := impl'.schedules } ∧
      schedules.foldlM (addSchedule hashing loaders machine) (h, datasets, impl.tags) =
        .ok (h', datasets', impl'.tags) := by
  induction schedules generalizing h datasets impl with
  | nil =>
    obtain ⟨rfl, rfl, rfl⟩ : h = h' ∧ datasets = datasets' ∧ impl = impl' := by
      simpa using Except.ok.inj hfold
    exact ⟨rfl, rfl⟩
  | cons schedule schedules ih =>
    obtain ⟨⟨h₁, datasets₁, impl₁⟩, hadd, hrest⟩ := foldlM_cons_ok hfold
    obtain ⟨p, i⟩ := schedule
    dsimp only [addScheduleImpl] at hadd
    split at hadd
    · cases hadd
    · next loader hloader =>
      obtain ⟨tags, htags, hadd⟩ := bind_ok hadd
      obtain ⟨rfl, rfl, rfl⟩ := by simpa only [Prod.mk.injEq] using Except.ok.inj hadd
      obtain ⟨himpl, hfold⟩ := ih hrest
      refine ⟨himpl, ?_⟩
      rw [List.foldlM_cons]
      simp only [addSchedule, hloader, htags]
      exact hfold

/-- Preparing registers the schedules and leaves everything else of a new `impl` as it is. -/
theorem prepareImpl_ok {s : Settings} {paths : List ImportPath} {h : Hash}
    {datasets : List (Dataset Loader Dir)} {impl : NigiriImpl Hash Tt Rtt View}
    (hprep : prepareImpl hashing loaders machine zero s paths = .ok (h, datasets, impl)) :
    impl = { tags := impl.tags, schedules := impl.schedules, hash := zero } ∧
      prepare hashing loaders machine s paths = .ok (h, datasets) := by
  simp only [prepareImpl] at hprep
  split at hprep
  · cases hprep
  · next htagged =>
    obtain ⟨⟨h', datasets', impl'⟩, hfold, hprep⟩ := bind_ok hprep
    obtain ⟨himpl, hfold⟩ := foldlM_addScheduleImpl hfold
    dsimp only at hprep
    split at hprep
    · cases hprep
    · next hnonempty =>
      obtain ⟨rfl, rfl, rfl⟩ := by simpa only [Prod.mk.injEq] using Except.ok.inj hprep
      refine ⟨himpl, ?_⟩
      simp only [prepare, if_neg htagged, hfold]
      exact if_neg hnonempty

variable [DecidableEq Hash] {s : ModuleSettings} {h : Hash} {scratch : Tt} {n : ℕ}
  {impl : NigiriImpl Hash Tt Rtt View} {dataDir : DataDir Hash Dump}

theorem importLoop_noCache (hcache : s.noCache = true) :
    importLoop machine lib parts s h (.ok scratch) (n + 1) impl dataDir =
      (.ok { impl with tt := some scratch }, dataDir) := by
  simp [importLoop, hcache]

/-- With a cache everything goes through `read`: of the dump found, or of a new one. -/
theorem importLoop_cached (hcache : s.noCache = false)
    (hread : ∀ tt, lib.read (lib.write tt) = some tt) :
    (importLoop machine lib parts s h (.ok scratch) (n + 2) impl dataDir).1 =
      .ok (impl.read machine parts s h (((dataDir h).bind lib.read).getD scratch)) := by
  have hmissing : ∀ (n : ℕ) (impl : NigiriImpl Hash Tt Rtt View) (dataDir : DataDir Hash Dump),
      dataDir h = none →
      (importLoop machine lib parts s h (.ok scratch) (n + 1) impl dataDir).1 =
        .ok (impl.read machine parts s h scratch) := by
    intro n impl dataDir hnone
    simp [importLoop, hcache, hnone, hread, NigiriImpl.read]
  cases hdump : dataDir h with
  | none => exact hmissing (n + 1) impl dataDir hdump
  | some dump =>
    cases htt : lib.read dump with
    | none =>
      -- the dump is removed, and the next round finds none
      have hround : importLoop machine lib parts s h (.ok scratch) (n + 2) impl dataDir =
          importLoop machine lib parts s h (.ok scratch) (n + 1) { impl with hash := h }
            (Function.update dataDir h none) := by
        rw [importLoop]
        simp [hcache, hdump, htt]
      rw [hround, hmissing n _ _ (Function.update_self ..)]
      simp [NigiriImpl.read, htt]
    | some tt => simp [importLoop, hcache, hdump, htt]

end Loop

/-! ### Starting -/

section Start
variable {Hash Tt Rtt Body View : Type} (parts : ModuleLibrary Tt Rtt Body View)
  (files : String → Option Body) {s : ModuleSettings} {impl : NigiriImpl Hash Tt Rtt View}

theorem feedSrc_ne_null (tags : TagLookup) (config : String) :
    feedSrc tags config ≠ .error .nullDereference := by
  rw [feedSrc]
  split <;> simp

theorem feedFile_ne_null (tags : TagLookup) (config : String) :
    feedFile files tags config ≠ .error .nullDereference := by
  intro hnull
  simp only [feedFile] at hnull
  split at hnull
  · cases hnull
  · cases hsrc : feedSrc tags config with
    | error e =>
      rw [hsrc] at hnull
      obtain rfl : e = .nullDereference := Except.error.inj hnull
      exact feedSrc_ne_null tags config hsrc
    | ok src =>
      rw [hsrc] at hnull
      cases hfile : files ((feedTokens config).getD 1 "") with
      | none =>
        simp only [hfile] at hnull
        cases hnull
      | some body =>
        simp only [hfile] at hnull
        cases hnull

/-- Paths that pass their checks are all read; the first one that does not ends `init`. -/
theorem foldlM_updateFromFile (tags : TagLookup) (tt : Tt) (rtt : Rtt) (paths : List String) :
    ((∀ path ∈ paths, ∃ r, feedFile files tags path = .ok r) ∧
      ∃ rtt', paths.foldlM (updateFromFile parts files tags (some tt)) rtt = .ok rtt') ∨
    ((∃ path ∈ paths, ∃ e, feedFile files tags path = .error e) ∧
      ∃ e, e ≠ .nullDereference ∧
        paths.foldlM (updateFromFile parts files tags (some tt)) rtt = .error e) := by
  induction paths generalizing rtt with
  | nil => exact .inl ⟨by simp, rtt, rfl⟩
  | cons path paths ih =>
    rw [List.foldlM_cons]
    cases hfile : feedFile files tags path with
    | error e =>
      refine .inr ⟨⟨path, by simp, e, hfile⟩, e, ?_, by simp only [updateFromFile, hfile]; rfl⟩
      rintro rfl
      exact feedFile_ne_null files tags path hfile
    | ok r =>
      have hstep : updateFromFile parts files tags (some tt) rtt path =
          .ok (parts.gtfsrtUpdateBuf tt rtt r.1 ((feedTokens path).getD 0 "") r.2) := by
        simp only [updateFromFile, hfile]
        rfl
      rw [hstep]
      rcases ih (parts.gtfsrtUpdateBuf tt rtt r.1 ((feedTokens path).getD 0 "") r.2) with
        ⟨hall, hfold⟩ | ⟨⟨path', hmem, hrejected⟩, hfold⟩
      · exact .inl ⟨List.forall_mem_cons.mpr ⟨⟨r, hfile⟩, hall⟩, hfold⟩
      · exact .inr ⟨⟨path', List.mem_cons_of_mem _ hmem, hrejected⟩, hfold⟩

theorem foldlM_updateFromEndpoint (tags : TagLookup) (tt : Tt) (rtt : Rtt)
    (endpoints : List (SourceIdx × Option Body)) :
    ∃ rtt', endpoints.foldlM (updateFromEndpoint parts tags (some tt)) rtt = .ok rtt' := by
  induction endpoints generalizing rtt with
  | nil => exact ⟨rtt, rfl⟩
  | cons endpoint endpoints ih =>
    rw [List.foldlM_cons]
    obtain ⟨src, _ | body⟩ := endpoint
    · exact ih rtt
    · exact ih (parts.gtfsrtUpdateBuf tt rtt src (getTagClean tags src) body)

/-- A timetable is there, and a real-time timetable when feeds are configured. -/
structure Loaded (s : ModuleSettings) (impl : NigiriImpl Hash Tt Rtt View) : Prop where
  tt : ∃ tt, impl.tt = some tt
  rtt : s.feeds = true → ∃ rtt, impl.rtt = some rtt

/-- An update gets as far as telling the railviz component. -/
theorem updateGtfsrt_eq_publishRtt (h : Loaded s impl) (hfeeds : s.feeds = true)
    (endpoints : List SourceIdx) (round : UpdateRound Body) :
    ∃ rtt, updateGtfsrt parts s endpoints impl round = impl.publishRtt parts rtt := by
  obtain ⟨tt, htt⟩ := h.tt
  obtain ⟨rtt, hrtt⟩ := h.rtt hfeeds
  have hpublish : ∀ rtt : Rtt, ∃ rtt', ((endpoints.zip round.fetched).foldlM
      (updateFromEndpoint parts impl.tags impl.tt) rtt >>= impl.publishRtt parts) =
        impl.publishRtt parts rtt' := by
    intro rtt
    obtain ⟨rtt', hfold⟩ := foldlM_updateFromEndpoint parts impl.tags tt rtt (endpoints.zip round.fetched)
    exact ⟨rtt', by rw [htt, hfold]; rfl⟩
  simp only [updateGtfsrt]
  split
  · rw [hrtt]
    exact hpublish rtt
  · have hderef : deref impl.tt = .ok tt := by rw [htt]; rfl
    rw [hderef]
    exact hpublish (parts.createRtTimetable tt round.today)

theorem publishRtt_of_none (hrailviz : impl.railviz = none) (rtt : Rtt) :
    impl.publishRtt parts rtt = .error .nullDereference := by
  simp only [NigiriImpl.publishRtt, hrailviz]
  rfl

theorem publishRtt_of_some (h : Loaded s impl) {railviz : View}
    (hrailviz : impl.railviz = some railviz) (rtt : Rtt) :
    ∃ impl', impl.publishRtt parts rtt = .ok impl' ∧ Loaded s impl' ∧
      ∃ railviz', impl'.railviz = some railviz' := by
  refine ⟨{ impl with rtt := some rtt, railviz := some (parts.railvizUpdate railviz rtt) }, ?_,
    ⟨h.tt, fun _ => ⟨rtt, rfl⟩⟩, _, rfl⟩
  simp only [NigiriImpl.publishRtt, hrailviz]
  rfl

theorem foldlM_updateGtfsrt (hfeeds : s.feeds = true) (endpoints : List SourceIdx)
    (rounds : List (UpdateRound Body)) (h : Loaded s impl) {railviz : View}
    (hrailviz : impl.railviz = some railviz) :
    ∃ impl', rounds.foldlM (updateGtfsrt parts s endpoints) impl = .ok impl' := by
  induction rounds generalizing impl railviz with
  | nil => exact ⟨impl, rfl⟩
  | cons round rounds ih =>
    obtain ⟨rtt, hupdate⟩ := updateGtfsrt_eq_publishRtt parts h hfeeds endpoints round
    obtain ⟨impl', hpublish, hloaded, railviz', hrailviz'⟩ :=
      publishRtt_of_some parts h hrailviz rtt
    rw [List.foldlM_cons, hupdate, hpublish]
    exact ih hloaded hrailviz'

theorem mapM_feedSrc (tags : TagLookup) (urls : List String) :
    ((¬ ∃ url ∈ urls, ∃ e, feedSrc tags url = .error e) ∧
      ∃ endpoints, urls.mapM (feedSrc tags) = .ok endpoints) ∨
    ((∃ url ∈ urls, ∃ e, feedSrc tags url = .error e) ∧
      ∃ e, e ≠ .nullDereference ∧ urls.mapM (feedSrc tags) = .error e) := by
  induction urls with
  | nil => exact .inl ⟨by simp, [], rfl⟩
  | cons url urls ih =>
    rw [List.mapM_cons]
    cases hsrc : feedSrc tags url with
    | error e =>
      refine .inr ⟨⟨url, by simp, e, hsrc⟩, e, ?_, rfl⟩
      rintro rfl
      exact feedSrc_ne_null tags url hsrc
    | ok src =>
      rcases ih with ⟨hall, endpoints, hurls⟩ | ⟨⟨url', hmem, hrejected⟩, e, hne, hurls⟩
      · refine .inl ⟨?_, src :: endpoints, by rw [hurls]; rfl⟩
        simpa [hsrc] using hall
      · exact .inr ⟨⟨url', List.mem_cons_of_mem _ hmem, hrejected⟩, e, hne, by rw [hurls]; rfl⟩

/-- Files are all read before the railviz component is told. -/
theorem initPaths_cases (h : Loaded s impl) (hpaths : s.gtfsrtPaths.isEmpty = false) :
    (FeedsRejected files s impl.tags ∧
      ∃ e, e ≠ .nullDereference ∧ initPaths parts files s impl = .error e) ∨
    (¬ FeedsRejected files s impl.tags ∧
      ∃ rtt, initPaths parts files s impl = impl.publishRtt parts rtt) := by
  obtain ⟨tt, htt⟩ := h.tt
  obtain ⟨rtt, hrtt⟩ := h.rtt (by simp [ModuleSettings.feeds, hpaths])
  have hinit : initPaths parts files s impl =
      s.gtfsrtPaths.foldlM (updateFromFile parts files impl.tags (some tt)) rtt >>=
        impl.publishRtt parts := by
    rw [initPaths, hpaths, hrtt, htt]
    rfl
  rw [FeedsRejected, hpaths, hinit, if_neg Bool.false_ne_true]
  rcases foldlM_updateFromFile parts files impl.tags tt rtt s.gtfsrtPaths
    with ⟨hall, rtt', hfold⟩ | ⟨hrejected, e, hne, hfold⟩ <;> rw [hfold]
  · refine .inr ⟨?_, rtt', rfl⟩
    rintro ⟨path, hpath, e, he⟩
    obtain ⟨r, hr⟩ := hall path hpath
    rw [he] at hr
    cases hr
  · exact .inl ⟨hrejected, e, hne, rfl⟩

theorem initPaths_of_isEmpty (impl : NigiriImpl Hash Tt Rtt View) (hpaths : s.gtfsrtPaths.isEmpty = true) :
    initPaths parts files s impl = .ok impl := if_pos hpaths

variable {parts files}

/-- The timer's part of starting. -/
theorem start_of_initPaths {impl' : NigiriImpl Hash Tt Rtt View} (h : Loaded s impl')
    (hpaths : initPaths parts files s impl = .ok impl') (rounds : List (UpdateRound Body)) :
    start parts files s impl rounds =
      if s.gtfsrtUrls.isEmpty then .ok impl'
      else s.gtfsrtUrls.mapM (feedSrc impl'.tags) >>= fun endpoints =>
        rounds.foldlM (updateGtfsrt parts s endpoints) impl' := by
  obtain ⟨tt, htt⟩ := h.tt
  have hinit : init parts files s impl = .ok impl' := by
    rw [init, hpaths]
    change (deref impl'.tt >>= fun _ => pure impl') = .ok impl'
    rw [htt]
    rfl
  rw [start, hinit]
  cases s.gtfsrtUrls.isEmpty <;> rfl

theorem start_of_initPaths_error {e : StartError}
    (hpaths : initPaths parts files s impl = .error e) (rounds : List (UpdateRound Body)) :
    start parts files s impl rounds = .error e := by
  rw [start, init, hpaths]
  rfl

/-- With a railviz component the timer's updates go through. -/
theorem start_ne_null_of_railviz {impl' : NigiriImpl Hash Tt Rtt View} (h : Loaded s impl')
    (hpaths : initPaths parts files s impl = .ok impl') {railviz : View}
    (hrailviz : impl'.railviz = some railviz) (rounds : List (UpdateRound Body)) :
    start parts files s impl rounds ≠ .error .nullDereference := by
  rw [start_of_initPaths h hpaths]
  cases hurls : s.gtfsrtUrls.isEmpty with
  | true => rintro ⟨⟩
  | false =>
    have hfeeds : s.feeds = true := by simp [ModuleSettings.feeds, hurls]
    rcases mapM_feedSrc impl'.tags s.gtfsrtUrls with ⟨-, endpoints, hmap⟩ | ⟨-, e, hne, hmap⟩
    · obtain ⟨impl'', hfold⟩ :=
        foldlM_updateGtfsrt parts hfeeds endpoints rounds h hrailviz
      intro hnull
      rw [hmap] at hnull
      change rounds.foldlM (updateGtfsrt parts s endpoints) impl' = _ at hnull
      rw [hfold] at hnull
      cases hnull
    · intro hnull
      rw [hmap] at hnull
      exact hne (Except.error.inj hnull)

/-- Starting uses a missing component exactly when there is no railviz component for the feeds. -/
theorem start_ne_null_iff (h : Loaded s impl) :
    (∀ rounds, start parts files s impl rounds ≠ .error .nullDereference) ↔
      (s.feeds = true → (∃ railviz, impl.railviz = some railviz) ∨
        FeedsRejected files s impl.tags) := by
  constructor
  · intro hstart hfeeds
    cases hrailviz : impl.railviz with
    | some railviz => exact .inl ⟨railviz, rfl⟩
    | none =>
      refine .inr (by_contra fun haccepted => ?_)
      cases hpaths : s.gtfsrtPaths.isEmpty with
      | false =>
        rcases initPaths_cases parts files h hpaths with ⟨hrejected, -⟩ | ⟨-, rtt, hinit⟩
        · exact haccepted hrejected
        · rw [publishRtt_of_none parts hrailviz] at hinit
          exact hstart [] (start_of_initPaths_error hinit [])
      | true =>
        have hurls : s.gtfsrtUrls.isEmpty = false := by
          simpa [ModuleSettings.feeds, hpaths] using hfeeds
        rw [FeedsRejected, if_pos hpaths] at haccepted
        rcases mapM_feedSrc impl.tags s.gtfsrtUrls with ⟨-, endpoints, hmap⟩ | ⟨hrejected, -⟩
        · -- the first update fails
          have hfirst := hstart [⟨0, []⟩]
          rw [start_of_initPaths h (initPaths_of_isEmpty parts files impl hpaths), hurls, hmap] at hfirst
          obtain ⟨rtt, hupdate⟩ :=
            updateGtfsrt_eq_publishRtt parts h hfeeds endpoints ⟨0, []⟩
          rw [publishRtt_of_none parts hrailviz] at hupdate
          apply hfirst
          change (updateGtfsrt parts s endpoints impl ⟨0, []⟩ >>= _) = _
          rw [hupdate]
          rfl
        · exact haccepted hrejected
  · intro hcond rounds
    cases hpaths : s.gtfsrtPaths.isEmpty with
    | false =>
      have hfeeds : s.feeds = true := by simp [ModuleSettings.feeds, hpaths]
      rcases initPaths_cases parts files h hpaths with
        ⟨-, e, hne, hinit⟩ | ⟨haccepted, rtt, hinit⟩
      · rw [start_of_initPaths_error hinit]
        exact fun hnull => hne (Except.error.inj hnull)
      · obtain ⟨railviz, hrailviz⟩ := (hcond hfeeds).resolve_right haccepted
        obtain ⟨impl', hpublish, hloaded, railviz', hrailviz'⟩ :=
          publishRtt_of_some parts h hrailviz rtt
        exact start_ne_null_of_railviz hloaded (hinit.trans hpublish) hrailviz' rounds
    | true =>
      have hinit := initPaths_of_isEmpty parts files impl hpaths
      cases hrailviz : impl.railviz with
      | some railviz => exact start_ne_null_of_railviz h hinit hrailviz rounds
      | none =>
        rw [start_of_initPaths h hinit]
        cases hurls : s.gtfsrtUrls.isEmpty with
        | true => rintro ⟨⟩
        | false =>
          have hfeeds : s.feeds = true := by simp [ModuleSettings.feeds, hurls]
          have hrejected : FeedsRejected files s impl.tags :=
            (hcond hfeeds).resolve_left (by simp [hrailviz])
          rw [FeedsRejected, if_pos hpaths] at hrejected
          rcases mapM_feedSrc impl.tags s.gtfsrtUrls with ⟨haccepted, -⟩ | ⟨-, e, hne, hmap⟩
          · exact absurd hrejected haccepted
          · rw [hmap]
            exact fun hnull => hne (Except.error.inj hnull)

end Start

/-! ### The state after an import -/

section State
variable {Hash Loader Dir Tt Bitfields Dump Rtt Body View : Type}
  {hashing : Hashing Hash Loader Dir} {loaders : Loaders Loader Dir} {machine : Machine Dir}
  {lib : TimetableLibrary Loader Dir Tt Bitfields Dump} {parts : ModuleLibrary Tt Rtt Body View}
  {files : String → Option Body} {zero : Hash} {s : ModuleSettings} {paths : List ImportPath}
  {h : Hash} {datasets : List (Dataset Loader Dir)} {impl : NigiriImpl Hash Tt Rtt View}
  {scratch : Tt}

/-- The state without a cache: the timetable as it was loaded, and no real-time timetable. -/
def uncached (parts : ModuleLibrary Tt Rtt Body View) (zero : Hash) (s : ModuleSettings)
    (tags : TagLookup) (schedules : List (ScheduleInfo Hash)) (scratch : Tt) :
    NigiriImpl Hash Tt Rtt View :=
  NigiriImpl.components parts s
    { tt := some scratch, tags := tags, schedules := schedules, hash := zero }

theorem loaded_imported (tags : TagLookup) (schedules : List (ScheduleInfo Hash)) :
    Loaded s (imported machine parts s h tags schedules scratch) where
  tt := ⟨_, rfl⟩
  rtt hfeeds := ⟨_, if_pos hfeeds⟩

/-- Starting from the expected state needs the railviz component for its feeds. -/
theorem start_imported_iff (tags : TagLookup) (schedules : List (ScheduleInfo Hash)) :
    (∀ rounds, start parts files s (imported machine parts s h tags schedules scratch) rounds ≠
        .error .nullDereference) ↔
      (s.feeds = true → s.railviz = true ∨ FeedsRejected files s tags) := by
  rw [start_ne_null_iff (loaded_imported tags schedules)]
  have hrailviz : (∃ railviz, (imported machine parts s h tags schedules scratch).railviz =
      some railviz) ↔ s.railviz = true := by
    simp only [imported]
    cases s.railviz <;> simp
  rw [hrailviz]
  rfl

/-- Without a cache the state is the expected one when nothing was left to do. -/
theorem uncached_eq_imported_iff (tags : TagLookup) (schedules : List (ScheduleInfo Hash)) :
    uncached parts zero s tags schedules scratch =
        imported machine parts s h tags schedules scratch ↔
      parts.resolveTimezones scratch = scratch ∧ h = zero ∧ s.feeds = false := by
  constructor
  · intro heq
    simp only [uncached, imported, NigiriImpl.components, NigiriImpl.mk.injEq] at heq
    obtain ⟨htt, hrtt, -, -, -, -, -, hhash⟩ := heq
    refine ⟨(Option.some.inj htt).symm, hhash.symm, ?_⟩
    cases hfeeds : s.feeds with
    | false => rfl
    | true =>
      rw [hfeeds] at hrtt
      cases hrtt
  · rintro ⟨htt, rfl, hfeeds⟩
    simp [uncached, imported, NigiriImpl.components, htt, hfeeds]

variable [DecidableEq Hash] (parts)

theorem importModule_noCache (hcache : s.noCache = true)
    (hprep : prepareImpl hashing loaders machine zero s.toSettings paths = .ok (h, datasets, impl))
    (hscratch : loadAndFinalize lib s.toSettings (importInterval machine s.toSettings) datasets =
      .ok scratch) (dataDir : DataDir Hash Dump) :
    importModule hashing loaders machine lib parts zero s paths dataDir =
      (.ok (uncached parts zero s impl.tags impl.schedules scratch), dataDir) := by
  obtain ⟨himpl, -⟩ := prepareImpl_ok hprep
  simp only [importModule, hprep, hscratch, importLoop_noCache hcache]
  rw [himpl]
  rfl

theorem importModule_cached (hcache : s.noCache = false)
    (hread : ∀ tt, lib.read (lib.write tt) = some tt)
    (hprep : prepareImpl hashing loaders machine zero s.toSettings paths = .ok (h, datasets, impl))
    (hscratch : loadAndFinalize lib s.toSettings (importInterval machine s.toSettings) datasets =
      .ok scratch) (dataDir : DataDir Hash Dump) :
    (importModule hashing loaders machine lib parts zero s paths dataDir).1 =
      .ok (imported machine parts s h impl.tags impl.schedules
        (((dataDir h).bind lib.read).getD scratch)) := by
  obtain ⟨himpl, -⟩ := prepareImpl_ok hprep
  simp only [importModule, hprep, hscratch]
  rw [importLoop_cached hcache hread, himpl]
  rfl

variable {parts}

/-- CORRECT: an import that reads its inputs ends in the same state whatever the cache holds, with
    everything that `init` and the updates use, if and only if there is no cache to bypass what is
    behind `read`, a dump that can be read is one of these inputs, and feeds have a railviz
    component. -/
theorem cachingIndependent_iff (hread : ∀ tt, lib.read (lib.write tt) = some tt)
    (hprep : prepareImpl hashing loaders machine zero s.toSettings paths = .ok (h, datasets, impl))
    (hscratch : loadAndFinalize lib s.toSettings (importInterval machine s.toSettings) datasets =
      .ok scratch) (dataDir : DataDir Hash Dump) :
    CachingIndependent hashing loaders machine lib parts files zero s paths dataDir
        (imported machine parts s h impl.tags impl.schedules scratch) ↔
      StateComplete lib parts files zero s h impl.tags scratch dataDir := by
  cases hcache : s.noCache with
  | true =>
    have himport := importModule_noCache parts hcache hprep hscratch dataDir
    constructor
    · intro hindependent
      obtain ⟨heq, -⟩ := hindependent _ _ himport
      have hnothing := (uncached_eq_imported_iff _ _).mp heq
      refine ⟨fun _ => hnothing, fun hcached => ?_, fun hfeeds => ?_⟩
      · rw [hcache] at hcached
        cases hcached
      · rw [hnothing.2.2] at hfeeds
        cases hfeeds
    · intro hcomplete impl' dataDir' hrun
      have heq : uncached parts zero s impl.tags impl.schedules scratch =
          imported machine parts s h impl.tags impl.schedules scratch :=
        (uncached_eq_imported_iff _ _).mpr (hcomplete.noCache hcache)
      rw [himport, heq] at hrun
      obtain ⟨himpl', -⟩ := Prod.mk.inj hrun
      obtain rfl := Except.ok.inj himpl'
      exact ⟨rfl, (start_imported_iff _ _).mpr hcomplete.railviz⟩
  | false =>
    have himport := importModule_cached parts hcache hread hprep hscratch dataDir
    constructor
    · intro hindependent
      obtain ⟨heq, hstart⟩ := hindependent _ _ (Prod.ext himport rfl)
      have htt : parts.resolveTimezones (((dataDir h).bind lib.read).getD scratch) =
          parts.resolveTimezones scratch := Option.some.inj (congrArg NigiriImpl.tt heq)
      refine ⟨fun hnocache => ?_, fun _ tt hdump => ?_, ?_⟩
      · rw [hcache] at hnocache
        cases hnocache
      · rwa [hdump] at htt
      · rw [heq] at hstart
        exact (start_imported_iff _ _).mp hstart
    · intro hcomplete impl' dataDir' hrun
      have htt : parts.resolveTimezones (((dataDir h).bind lib.read).getD scratch) =
          parts.resolveTimezones scratch := by
        cases hdump : (dataDir h).bind lib.read with
        | none => rfl
        | some tt => exact hcomplete.dump hcache tt hdump
      rw [hrun] at himport
      obtain rfl := Except.ok.inj himport
      have heq : imported machine parts s h impl.tags impl.schedules
          (((dataDir h).bind lib.read).getD scratch) =
            imported machine parts s h impl.tags impl.schedules scratch := by
        simp only [imported, htt]
      rw [heq]
      exact ⟨rfl, (start_imported_iff _ _).mpr hcomplete.railviz⟩

end State

/-! Timetables that only know whether their time zones are resolved. -/

def zonesLibrary : TimetableLibrary Unit ℕ Bool Unit Bool where
  registerSpecialStations _ := false
  noBitfields := ()
  load _ _ _ _ tt := .ok tt
  finalize tt _ _ _ := tt
  write := id
  read := some

def zonesParts : ModuleLibrary Bool SysDays Unit Unit where
  resolveTimezones _ := true
  createRtTimetable _ today := today
  gtfsrtUpdateBuf _ rtt _ _ _ := rtt
  stationLookup _ _ := ()
  guesser _ _ := ()
  railviz _ _ := ()
  railvizUpdate view _ := view

/-- One feed, in a file. -/
def oneFeed : ModuleSettings := { gtfsrtPaths := ["de|de.pb"] }

def onePathImpl : NigiriImpl ℕ Bool SysDays Unit where
  tags := ⟨["de_"], (∅ : Std.TreeMap String SourceIdx).insertIfNew "de_" 0⟩
  schedules := [⟨"de", 0, "de.zip"⟩]
  hash := 0

theorem prepareImpl_onePath (noCache : Bool) :
    prepareImpl natHashing oneLoader someday 0 { noCache := noCache } onePath =
      .ok (onePathHash, [⟨0, (), 0⟩], onePathImpl) := by
  have hinputs : settingsInputs natHashing someday { noCache := noCache } =
      settingsInputs natHashing someday {} := rfl
  have hschedules : onePath.filter (·.tag == "schedule") = onePath := rfl
  have htagged : onePath.all (fun p => p.tag != "schedule" || p.options != "") = true := rfl
  simp only [prepareImpl, hinputs, hschedules, htagged, onePathHash]
  generalize hashCombine natHashing natHashing.base (settingsInputs natHashing someday {}) = h
  rfl

theorem cachingIndependent_iff_oneFeed :
    CachingIndependent natHashing oneLoader someday zonesLibrary zonesParts (fun _ => some ()) 0
        oneFeed onePath (fun _ => none)
        (imported someday zonesParts oneFeed onePathHash onePathImpl.tags onePathImpl.schedules
          false) ↔
      StateComplete zonesLibrary zonesParts (fun _ => some ()) 0 oneFeed onePathHash
        onePathImpl.tags false (fun _ => none) :=
  cachingIndependent_iff (h := onePathHash) (s := oneFeed) (fun _ => rfl)
    (prepareImpl_onePath false) rfl _

/-- Without a cache there is no real-time timetable that `init` could copy. -/
theorem not_cachingIndependent_noCache :
    ¬ CachingIndependent natHashing oneLoader someday zonesLibrary zonesParts (fun _ => some ()) 0
      { oneFeed with noCache := true } onePath (fun _ => none)
      (imported someday zonesParts { oneFeed with noCache := true } onePathHash onePathImpl.tags
        onePathImpl.schedules false) := by
  intro hindependent
  have hscratch : loadAndFinalize zonesLibrary {} (importInterval someday {}) [⟨0, (), 0⟩] =
      .ok false := rfl
  have himport := importModule_noCache (h := onePathHash)
    (s := { oneFeed with noCache := true }) zonesParts rfl (prepareImpl_onePath true) hscratch
    (fun _ => none)
  exact (hindependent _ _ himport).2 [] rfl

end Motis.Nigiri
