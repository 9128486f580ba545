import Mathlib.Data.Nat.Pairing
import Mathlib.Logic.Equiv.List
import Mathlib.Logic.Equiv.Nat
import Motis.Nigiri.TagLookup

/-! Importing a timetable through the dumps of its data directory.

    Loading and finalizing take long, so the finished timetable is written to a file named by a hash
    of the settings and datasets it came from, and the next import with this hash reads it back.
    The loaders, the finalization step and the memory image are another project's. -/

namespace Motis.Nigiri
open Fallible

/-! ### Settings and their hash -/

abbrev SysDays := ℤ

structure Settings where
  noCache : Bool := false
  adjustFootpaths : Bool := true
  mergeDuplicates : Bool := false
  maxFootpathLength : UInt32 := 65535
  firstDay : String := "TODAY"
  defaultTimezone : String := ""
  numDays : UInt16 := 2
  linkStopDistance : UInt32 := 100
  deriving DecidableEq, Repr

/-- What `hash_combine` adds to a hash. -/
inductive HashInput (Hash : Type) where
  | days (n : SysDays)
  | bool (b : Bool)
  | unsigned (n : UInt32)
  | hash (h : Hash)

/-- Hashing without collisions. -/
structure Hashing (Hash Loader Dir : Type) where
  base : Hash
  combine : Hash → HashInput Hash → Hash
  string : String → Hash
  dir : Loader → Dir → Hash
  combine_inj : ∀ h h' x x', combine h x = combine h' x' → h = h' ∧ x = x'
  combine_ne_base : ∀ h x, combine h x ≠ base
  string_inj : ∀ s s', string s = string s' → s = s'
  dir_inj : ∀ l l' d d', dir l d = dir l' d' → d = d'

structure Loaders (Loader Dir : Type) where
  loaders : List Loader
  applicable : Loader → Dir → Bool

/-- What an import finds on its machine. -/
structure Machine (Dir : Type) where
  today : SysDays
  parseDate : String → SysDays
  makeDir : String → Dir

structure Dataset (Loader Dir : Type) where
  src : SourceIdx
  loader : Loader
  dir : Dir

section Prepare
variable {Hash Loader Dir : Type} (hashing : Hashing Hash Loader Dir)
  (loaders : Loaders Loader Dir) (machine : Machine Dir)

/-- The days from `begin` on. -/
def importInterval (s : Settings) : SysDays × SysDays :=
  let begin_ := if s.firstDay = "TODAY" then machine.today else machine.parseDate s.firstDay
  (begin_, begin_ + s.numDays.toNat)

/-- `hash_combine` of several values. -/
def hashCombine (h : Hash) (xs : List (HashInput Hash)) : Hash := xs.foldl hashing.combine h

def settingsInputs (s : Settings) : List (HashInput Hash) :=
  [.days (importInterval machine s).1, .days (importInterval machine s).2, .bool s.adjustFootpaths,
    .unsigned s.linkStopDistance, .hash (hashing.string s.defaultTimezone)]

/-- One schedule: its loader is the first applicable one. -/
def addSchedule (acc : Hash × List (Dataset Loader Dir) × TagLookup) (schedule : ImportPath × ℕ) :
    Except ImportError (Hash × List (Dataset Loader Dir) × TagLookup) := do
  let (h, datasets, tags) := acc
  let (p, i) := schedule
  let d := machine.makeDir p.path
  match loaders.loaders.find? (loaders.applicable · d) with
  | none => throw .noLoaderApplicable
  | some loader =>
    let tags ← tags.add i (p.options ++ "_")
    return (hashCombine hashing h [.hash (hashing.dir loader d)], datasets ++ [⟨i, loader, d⟩], tags)

/-- The name of the dump, and the datasets it is made of. -/
def prepare (s : Settings) (paths : List ImportPath) :
    Except ImportError (Hash × List (Dataset Loader Dir)) := do
  if !paths.all fun p => p.tag != "schedule" || p.options != "" then throw .noNameTag
  let h := hashCombine hashing hashing.base (settingsInputs hashing machine s)
  let schedules := paths.filter (·.tag == "schedule")
  let (h, datasets, _) ← schedules.zipIdx.foldlM (addSchedule hashing loaders machine) (h, [], {})
  if datasets.isEmpty then throw .noDatasets
  return (h, datasets)

end Prepare

/-! ### Loading -/

structure LoaderConfig where
  linkStopDistance : UInt32
  defaultTz : String
  deriving DecidableEq, Repr

/-- Loading and finalizing are functions of their arguments; the bitfields of the traffic days are
    shared by all datasets. `read` fails on an image it cannot read. -/
structure TimetableLibrary (Loader Dir Tt Bitfields Dump : Type) where
  registerSpecialStations : SysDays × SysDays → Tt
  noBitfields : Bitfields
  load : Loader → LoaderConfig → SourceIdx → Dir → Tt × Bitfields →
    Except ImportError (Tt × Bitfields)
  finalize : Tt → Bool → Bool → UInt32 → Tt
  write : Tt → Dump
  read : Dump → Option Tt

section Import
variable {Hash Loader Dir Tt Bitfields Dump : Type} (hashing : Hashing Hash Loader Dir)
  (loaders : Loaders Loader Dir) (machine : Machine Dir)
  (lib : TimetableLibrary Loader Dir Tt Bitfields Dump)

/-- From the input files. -/
def loadAndFinalize (s : Settings) (interval : SysDays × SysDays)
    (datasets : List (Dataset Loader Dir)) : Except ImportError Tt := do
  let config : LoaderConfig := ⟨s.linkStopDistance, s.defaultTimezone⟩
  let (tt, _) ← datasets.foldlM (fun tt d => lib.load d.loader config d.src d.dir tt)
    (lib.registerSpecialStations interval, lib.noBitfields)
  return lib.finalize tt s.adjustFootpaths s.mergeDuplicates s.maxFootpathLength

/-- The dump files of a data directory. -/
abbrev DataDir (Hash Dump : Type) := Hash → Option Dump

variable [DecidableEq Hash]

/-- The timetable comes from the input files, through a dump unless `no_cache` is set, or from a
    dump that is there. A dump that cannot be read is removed before the next attempt. -/
def attempts (noCache : Bool) (h : Hash) (scratch : Except ImportError Tt) :
    ℕ → DataDir Hash Dump → Except ImportError Tt × DataDir Hash Dump
  | 0, dataDir => (.error .loadingFailed, dataDir)
  | n + 1, dataDir =>
    let readDump (dataDir : DataDir Hash Dump) :=
      match (dataDir h).bind lib.read with
      | some tt => (.ok tt, dataDir)
      | none => attempts noCache h scratch n (Function.update dataDir h none)
    if noCache || (dataDir h).isNone then
      match scratch with
      | .error e => (.error e, dataDir)
      | .ok tt =>
        if noCache then (.ok tt, dataDir)
        else readDump (Function.update dataDir h (some (lib.write tt)))
    else readDump dataDir

/-- `import`, as far as the timetable goes. -/
def importTimetable (s : Settings) (paths : List ImportPath) (dataDir : DataDir Hash Dump) :
    Except ImportError Tt × DataDir Hash Dump :=
  match prepare hashing loaders machine s paths with
  | .error e => (.error e, dataDir)
  | .ok (h, datasets) =>
    attempts lib s.noCache h (loadAndFinalize lib s (importInterval machine s) datasets) 2 dataDir

end Import

/-! ### What the hash tells apart -/

section Keys
variable {Hash Loader Dir : Type} {hashing : Hashing Hash Loader Dir}

/-- Values combined from the base can be read off the hash. -/
theorem hashCombine_base_inj {xs ys : List (HashInput Hash)}
    (h : hashCombine hashing hashing.base xs = hashCombine hashing hashing.base ys) : xs = ys := by
  induction xs using List.reverseRecOn generalizing ys with
  | nil =>
    cases ys using List.reverseRecOn with
    | nil => rfl
    | append_singleton ys y =>
      rw [hashCombine, hashCombine, List.foldl_append] at h
      exact absurd h.symm (hashing.combine_ne_base _ _)
  | append_singleton xs x ih =>
    cases ys using List.reverseRecOn with
    | nil =>
      rw [hashCombine, hashCombine, List.foldl_append] at h
      exact absurd h (hashing.combine_ne_base _ _)
    | append_singleton ys y =>
      rw [hashCombine, hashCombine, List.foldl_append, List.foldl_append] at h
      obtain ⟨hinit, rfl⟩ := hashing.combine_inj _ _ _ _ h
      rw [ih hinit]

/-- The hash inputs of datasets. -/
def datasetInputs (hashing : Hashing Hash Loader Dir) (datasets : List (Dataset Loader Dir)) :
    List (HashInput Hash) :=
  datasets.map fun d => .hash (hashing.dir d.loader d.dir)

/-- Datasets are numbered from `k`, each with the first applicable loader. -/
structure Prepared (loaders : Loaders Loader Dir) (k : ℕ) (datasets : List (Dataset Loader Dir)) :
    Prop where
  src : datasets.map (·.src) = List.range' k datasets.length
  loader : ∀ d ∈ datasets, loaders.loaders.find? (loaders.applicable · d.dir) = some d.loader

variable {loaders : Loaders Loader Dir} {machine : Machine Dir}

theorem foldlM_addSchedule {schedules : List ImportPath} {k : ℕ} {h h' : Hash}
    {datasets datasets' : List (Dataset Loader Dir)} {tags tags' : TagLookup}
    (hfold : (schedules.zipIdx k).foldlM (addSchedule hashing loaders machine) (h, datasets, tags) =
      .ok (h', datasets', tags')) :
    ∃ new, datasets' = datasets ++ new ∧ h' = hashCombine hashing h (datasetInputs hashing new) ∧
      Prepared loaders k new := by
  induction schedules generalizing k h datasets tags with
  | nil =>
    obtain ⟨rfl, rfl, rfl⟩ : h = h' ∧ datasets = datasets' ∧ tags = tags' := by
      simpa using Except.ok.inj hfold
    exact ⟨[], by simp, rfl, ⟨rfl, by simp⟩⟩
  | cons p schedules ih =>
    rw [List.zipIdx_cons] at hfold
    obtain ⟨⟨h₁, datasets₁, tags₁⟩, hadd, hrest⟩ := foldlM_cons_ok hfold
    dsimp only [addSchedule] at hadd
    split at hadd
    · cases hadd
    · next loader hloader =>
      obtain ⟨_, _, hadd⟩ := bind_ok hadd
      obtain ⟨rfl, rfl, -⟩ := by simpa only [Prod.mk.injEq] using Except.ok.inj hadd
      obtain ⟨new, rfl, rfl, hsrc, hfirst⟩ := ih hrest
      refine ⟨⟨k, loader, machine.makeDir p.path⟩ :: new, by simp, rfl, ?_, ?_⟩
      · rw [List.map_cons, hsrc, List.length_cons, List.range'_succ]
      · exact List.forall_mem_cons.mpr ⟨hloader, hfirst⟩

theorem prepare_ok {s : Settings} {paths : List ImportPath} {h : Hash}
    {datasets : List (Dataset Loader Dir)}
    (hprep : prepare hashing loaders machine s paths = .ok (h, datasets)) :
    h = hashCombine hashing hashing.base
        (settingsInputs hashing machine s ++ datasetInputs hashing datasets) ∧
      Prepared loaders 0 datasets := by
  simp only [prepare] at hprep
  split at hprep
  · cases hprep
  · obtain ⟨⟨h', datasets', tags⟩, hfold, hprep⟩ := bind_ok hprep
    dsimp only at hprep
    split at hprep
    · cases hprep
    · obtain ⟨rfl, rfl⟩ := by simpa only [Prod.mk.injEq] using Except.ok.inj hprep
      obtain ⟨new, rfl, rfl, hprepared⟩ := foldlM_addSchedule hfold
      rw [hashCombine, hashCombine, hashCombine, List.foldl_append]
      exact ⟨rfl, hprepared⟩

theorem Prepared.of_cons {k : ℕ} {d : Dataset Loader Dir} {datasets : List (Dataset Loader Dir)}
    (h : Prepared loaders k (d :: datasets)) :
    d.src = k ∧ loaders.loaders.find? (loaders.applicable · d.dir) = some d.loader ∧
      Prepared loaders (k + 1) datasets := by
  obtain ⟨hsrc, hloader⟩ := h
  rw [List.map_cons, List.length_cons, List.range'_succ, List.cons.injEq] at hsrc
  obtain ⟨hhead, htail⟩ := List.forall_mem_cons.mp hloader
  exact ⟨hsrc.1, hhead, hsrc.2, htail⟩

theorem Prepared.eq_of_inputs {k : ℕ} {datasets datasets' : List (Dataset Loader Dir)}
    (h : Prepared loaders k datasets) (h' : Prepared loaders k datasets')
    (hinputs : datasetInputs hashing datasets = datasetInputs hashing datasets') :
    datasets = datasets' := by
  induction datasets generalizing k datasets' with
  | nil =>
    cases datasets' with
    | nil => rfl
    | cons d' datasets' => cases hinputs
  | cons d datasets ih =>
    cases datasets' with
    | nil => cases hinputs
    | cons d' datasets' =>
      rw [datasetInputs, datasetInputs, List.map_cons, List.map_cons, List.cons.injEq,
        HashInput.hash.injEq] at hinputs
      obtain ⟨hsrc, hloader, hrest⟩ := h.of_cons
      obtain ⟨hsrc', hloader', hrest'⟩ := h'.of_cons
      have hdir : d.dir = d'.dir := hashing.dir_inj _ _ _ _ hinputs.1
      rw [hdir, hloader'] at hloader
      have hhead : d = d' := by
        cases d
        cases d'
        simp_all
      rw [hhead, ih hrest hrest' hinputs.2]

/-- Equal names of dumps come from equal datasets and from settings that agree in what is hashed. -/
theorem prepare_inj {machine' : Machine Dir} {s s' : Settings} {paths paths' : List ImportPath}
    {h : Hash} {datasets datasets' : List (Dataset Loader Dir)}
    (hprep : prepare hashing loaders machine s paths = .ok (h, datasets))
    (hprep' : prepare hashing loaders machine' s' paths' = .ok (h, datasets')) :
    importInterval machine s = importInterval machine' s' ∧
      s.adjustFootpaths = s'.adjustFootpaths ∧ s.linkStopDistance = s'.linkStopDistance ∧
      s.defaultTimezone = s'.defaultTimezone ∧ datasets = datasets' := by
  obtain ⟨hkey, hprepared⟩ := prepare_ok hprep
  obtain ⟨hkey', hprepared'⟩ := prepare_ok hprep'
  obtain ⟨hsettings, hdatasets⟩ := List.append_inj (hashCombine_base_inj (hkey.symm.trans hkey')) rfl
  simp only [settingsInputs, List.cons.injEq, HashInput.days.injEq, HashInput.bool.injEq,
    HashInput.unsigned.injEq, HashInput.hash.injEq, and_true] at hsettings
  obtain ⟨hfrom, hto, hadjust, hlink, htz⟩ := hsettings
  exact ⟨Prod.ext hfrom hto, hadjust, hlink, hashing.string_inj _ _ htz,
    hprepared.eq_of_inputs hprepared' hdatasets⟩

end Keys

/-! ### Two imports -/

section Attempts
variable {Hash Loader Dir Tt Bitfields Dump : Type}
  {lib : TimetableLibrary Loader Dir Tt Bitfields Dump} [DecidableEq Hash] {h : Hash}

/-- An import that finds no dump leaves the one it read its timetable from. -/
theorem attempts_of_no_dump {scratch : Except ImportError Tt} {n : ℕ} {tt : Tt}
    {dataDir dataDir' : DataDir Hash Dump} (hnone : dataDir h = none)
    (hrun : attempts lib false h scratch n dataDir = (.ok tt, dataDir')) :
    ∃ written, scratch = .ok written ∧ lib.read (lib.write written) = some tt ∧
      dataDir' h = some (lib.write written) := by
  induction n generalizing dataDir with
  | zero => cases hrun
  | succ n ih =>
    cases scratch with
    | error e => simp [attempts, hnone] at hrun
    | ok written =>
      simp only [attempts, hnone, Option.isNone_none, Bool.or_true, if_true, Bool.false_eq_true,
        if_false, Function.update_self, Option.bind_some] at hrun
      cases hread : lib.read (lib.write written) with
      | none =>
        simp only [hread] at hrun
        exact ih (Function.update_self ..) hrun
      | some tt' =>
        simp only [hread, Prod.mk.injEq, Except.ok.injEq] at hrun
        obtain ⟨rfl, rfl⟩ := hrun
        exact ⟨written, rfl, hread, Function.update_self ..⟩

/-- An import that finds a dump it can read takes the timetable from there. -/
theorem attempts_of_dump {scratch : Except ImportError Tt} {n : ℕ} {tt : Tt} {dump : Dump}
    {dataDir : DataDir Hash Dump} (hdump : dataDir h = some dump) (hread : lib.read dump = some tt) :
    attempts lib false h scratch (n + 1) dataDir = (.ok tt, dataDir) := by
  simp [attempts, hdump, hread]

theorem attempts_from_scratch {n : ℕ} {written tt : Tt} {dataDir : DataDir Hash Dump}
    (hnone : dataDir h = none) (hread : lib.read (lib.write written) = some tt) :
    (attempts lib false h (.ok written) (n + 1) dataDir).1 = .ok tt := by
  simp [attempts, hnone, hread]

end Attempts

section Reuse
variable {Hash Loader Dir : Type} [DecidableEq Hash] (hashing : Hashing Hash Loader Dir)
  (loaders : Loaders Loader Dir)

/-- Loading changes nothing, finalizing records the settings that are not hashed. -/
def recordSettings : TimetableLibrary Loader Dir (Bool × UInt32) Unit (Bool × UInt32) where
  registerSpecialStations _ := (false, 0)
  noBitfields := ()
  load _ _ _ _ tt := .ok tt
  finalize _ _ mergeDuplicates maxFootpathLength := (mergeDuplicates, maxFootpathLength)
  write := id
  read := some

theorem loadAndFinalize_recordSettings (s : Settings) (interval : SysDays × SysDays)
    (datasets : List (Dataset Loader Dir)) :
    loadAndFinalize recordSettings s interval datasets =
      .ok (s.mergeDuplicates, s.maxFootpathLength) := by
  have hload : ∀ tt : (Bool × UInt32) × Unit, datasets.foldlM (fun tt d =>
      recordSettings.load d.loader ⟨s.linkStopDistance, s.defaultTimezone⟩ d.src d.dir tt) tt =
        .ok tt := by
    intro tt
    induction datasets with
    | nil => rfl
    | cons d datasets ih => rw [List.foldlM_cons]; exact ih
  rw [loadAndFinalize, hload]
  rfl

variable {hashing loaders} in
theorem importTimetable_recordSettings {machine : Machine Dir} {s : Settings}
    {paths : List ImportPath} {h : Hash} {datasets : List (Dataset Loader Dir)}
    (hcache : s.noCache = false)
    (hprep : prepare hashing loaders machine s paths = .ok (h, datasets)) :
    ∃ dataDir', importTimetable hashing loaders machine recordSettings s paths (fun _ => none) =
      (.ok (s.mergeDuplicates, s.maxFootpathLength), dataDir') := by
  simp only [importTimetable, hprep, hcache, loadAndFinalize_recordSettings]
  exact ⟨_, Prod.ext (attempts_from_scratch rfl rfl) rfl⟩

/-- The second import ends up with the timetable it would have made from scratch, whatever loading
    and finalizing do. -/
def ReuseSound (machine machine' : Machine Dir) (s s' : Settings) (paths paths' : List ImportPath)
    (h : Hash) : Prop :=
  ∀ (Tt Bitfields Dump : Type) (lib : TimetableLibrary Loader Dir Tt Bitfields Dump)
    (dataDir dataDir' : DataDir Hash Dump) (tt : Tt), dataDir h = none →
    importTimetable hashing loaders machine lib s paths dataDir = (.ok tt, dataDir') →
      (importTimetable hashing loaders machine' lib s' paths' dataDir').1 =
        (importTimetable hashing loaders machine' lib s' paths' fun _ => none).1

variable {hashing loaders} {machine machine' : Machine Dir} {s s' : Settings}
  {paths paths' : List ImportPath} {h : Hash} {datasets datasets' : List (Dataset Loader Dir)}

theorem settings_eq_of_reuseSound (hcache : s.noCache = false) (hcache' : s'.noCache = false)
    (hprep : prepare hashing loaders machine s paths = .ok (h, datasets))
    (hprep' : prepare hashing loaders machine' s' paths' = .ok (h, datasets'))
    (hsound : ReuseSound hashing loaders machine machine' s s' paths paths' h) :
    s.mergeDuplicates = s'.mergeDuplicates ∧ s.maxFootpathLength = s'.maxFootpathLength := by
  obtain ⟨dataDir', hrun⟩ := importTimetable_recordSettings hcache hprep
  have hsame := hsound _ _ _ recordSettings (fun _ => none) dataDir' _ rfl hrun
  simp only [importTimetable, hprep, hprep', hcache, hcache', loadAndFinalize_recordSettings]
    at hrun hsame
  obtain ⟨written, hwritten, hread, hdump⟩ := attempts_of_no_dump rfl hrun
  rw [attempts_of_dump hdump hread, attempts_from_scratch rfl rfl] at hsame
  exact Prod.mk.inj (Except.ok.inj hsame)

theorem reuseSound_of_settings_eq (hcache : s.noCache = false) (hcache' : s'.noCache = false)
    (hprep : prepare hashing loaders machine s paths = .ok (h, datasets))
    (hprep' : prepare hashing loaders machine' s' paths' = .ok (h, datasets'))
    (hmerge : s.mergeDuplicates = s'.mergeDuplicates)
    (hlength : s.maxFootpathLength = s'.maxFootpathLength) :
    ReuseSound hashing loaders machine machine' s s' paths paths' h := by
  intro Tt Bitfields Dump lib dataDir dataDir' tt hnone hrun
  obtain ⟨hinterval, hadjust, hlink, htz, rfl⟩ := prepare_inj hprep hprep'
  have hsame : loadAndFinalize lib s' (importInterval machine' s') datasets =
      loadAndFinalize lib s (importInterval machine s) datasets := by
    simp only [loadAndFinalize, hinterval, hadjust, hlink, htz, hmerge, hlength]
  simp only [importTimetable, hprep, hprep', hcache, hcache', hsame] at hrun ⊢
  obtain ⟨written, hwritten, hread, hdump⟩ := attempts_of_no_dump hnone hrun
  rw [attempts_of_dump hdump hread, hwritten, attempts_from_scratch rfl hread]

/-- CORRECT: a dump written by one import serves another of the same name exactly when the two agree
    in the settings that are finalized with but not hashed. -/
theorem reuseSound_iff (hcache : s.noCache = false) (hcache' : s'.noCache = false)
    (hprep : prepare hashing loaders machine s paths = .ok (h, datasets))
    (hprep' : prepare hashing loaders machine' s' paths' = .ok (h, datasets')) :
    ReuseSound hashing loaders machine machine' s s' paths paths' h ↔
      s.mergeDuplicates = s'.mergeDuplicates ∧ s.maxFootpathLength = s'.maxFootpathLength := by
  constructor
  · exact settings_eq_of_reuseSound hcache hcache' hprep hprep'
  · exact fun h => reuseSound_of_settings_eq hcache hcache' hprep hprep' h.1 h.2

end Reuse

/-! A data directory of feeds numbered by their path. -/

def inputCode : HashInput ℕ → ℕ
  | .days n => 4 * Encodable.encode n
  | .bool b => 4 * b.toNat + 1
  | .unsigned n => 4 * n.toNat + 2
  | .hash h => 4 * h + 3

theorem inputCode_injective : Function.Injective inputCode := by
  intro x x' h
  cases x <;> cases x' <;> simp only [inputCode] at h <;> try omega
  case days.days n n' =>
    rw [Encodable.encode_injective (by omega : Encodable.encode n = Encodable.encode n')]
  case bool.bool b b' => cases b <;> cases b' <;> first | rfl | cases h
  case unsigned.unsigned n n' => rw [UInt32.toNat_inj.mp (by omega : n.toNat = n'.toNat)]
  case hash.hash k k' => rw [(by omega : k = k')]

def natHashing : Hashing ℕ Unit ℕ where
  base := 0
  combine h x := Nat.pair h (inputCode x) + 1
  string s := Encodable.encode (s.toList.map Char.toNat)
  dir _ d := d
  combine_inj h h' x x' heq := by
    obtain ⟨hh, hx⟩ := Nat.pair_eq_pair.mp (Nat.succ_injective heq)
    exact ⟨hh, inputCode_injective hx⟩
  combine_ne_base _ _ := Nat.succ_ne_zero _
  string_inj _ _ h := String.toList_injective
    (List.map_injective_iff.mpr (fun _ _ => Char.toNat_inj.mp) (Encodable.encode_injective h))
  dir_inj _ _ _ _ h := h

def oneLoader : Loaders Unit ℕ := ⟨[()], fun _ _ => true⟩

def someday : Machine ℕ := ⟨20000, fun _ => 0, fun _ => 0⟩

def onePath : List ImportPath := [⟨"schedule", "de", "de.zip"⟩]

def onePathHash : ℕ :=
  hashCombine natHashing (hashCombine natHashing natHashing.base
    (settingsInputs natHashing someday {})) [.hash 0]

theorem prepare_onePath (merge : Bool) :
    prepare natHashing oneLoader someday { mergeDuplicates := merge } onePath =
      .ok (onePathHash, [⟨0, (), 0⟩]) := by
  have hinputs : settingsInputs natHashing someday { mergeDuplicates := merge } =
      settingsInputs natHashing someday {} := rfl
  have hschedules : onePath.filter (·.tag == "schedule") = onePath := rfl
  have htagged : onePath.all (fun p => p.tag != "schedule" || p.options != "") = true := rfl
  simp only [prepare, hinputs, hschedules, htagged, onePathHash]
  generalize hashCombine natHashing natHashing.base (settingsInputs natHashing someday {}) = h
  rfl

theorem reuseSound_iff_onePath :
    ReuseSound natHashing oneLoader someday someday {} {} onePath onePath onePathHash ↔
      ({} : Settings).mergeDuplicates = ({} : Settings).mergeDuplicates ∧
        ({} : Settings).maxFootpathLength = ({} : Settings).maxFootpathLength :=
  reuseSound_iff rfl rfl (prepare_onePath false) (prepare_onePath false)

/-- A dump without merged duplicates serves an import that asks for merging. -/
theorem not_reuseSound :
    prepare natHashing oneLoader someday { mergeDuplicates := false } onePath =
      .ok (onePathHash, [⟨0, (), 0⟩]) ∧
    prepare natHashing oneLoader someday { mergeDuplicates := true } onePath =
      .ok (onePathHash, [⟨0, (), 0⟩]) ∧
    ¬ ReuseSound natHashing oneLoader someday someday { mergeDuplicates := false }
      { mergeDuplicates := true } onePath onePath onePathHash := by
  refine ⟨prepare_onePath false, prepare_onePath true, fun hsound => ?_⟩
  have hmerge : false = true :=
    (settings_eq_of_reuseSound rfl rfl (prepare_onePath false) (prepare_onePath true) hsound).1
  cases hmerge

end Motis.Nigiri
