import Mathlib.Data.Finset.Card
import Mathlib.Data.Prod.Lex
import Motis.Module.ImportDelivery
import Motis.Nigiri.TagLookup

/-! The import of an instance.

    The modules subscribe the importers of their collectors with one dispatcher, after the importer
    of the files. A dummy message asks all of them for their status; the file event with the import
    paths then starts the processing, and every file and every finished operation publishes further
    events:

        FileEvent ──▶ OSMEvent, CoastlineEvent, DEMEvent ──▶ OSRMEvent, StationsEvent, ...

    The dispatcher runs until nothing is queued. -/

namespace Motis.Bootstrap
open Motis.Module Motis.Nigiri Fallible

/-! ### import_files -/

/-- The content of an import message; `published` is what only the operations of modules send. -/
inductive ImportMsg (Event : Type) where
  | motisSuccess
  | fileEvent (paths : List ImportPath)
  | osmEvent (path : String) (hash size : UInt64)
  | coastlineEvent (path : String) (hash size : UInt64)
  | demEvent (path : String) (hash : UInt64)
  | published (event : Event)
  deriving DecidableEq, Repr

variable {Event : Type}

def ImportMsg.isSuccess : ImportMsg Event → Bool
  | motisSuccess => true
  | _ => false

def ImportMsg.isFileEvent : ImportMsg Event → Bool
  | fileEvent _ => true
  | _ => false

structure FileSystem where
  fileExists : String → Bool
  isRegularFile : String → Bool
  isDirectory : String → Bool
  /-- `none` where the call throws, also for `content`. -/
  fileSize : String → Option UInt64
  content : String → Option (List UInt8)
  /-- The names in a directory, in the order of its iterator. -/
  entries : String → List String

/-- `cista::hash` and `cista::hash_combine`. -/
structure Hashing where
  baseHash : UInt64
  hash : List UInt8 → UInt64 → UInt64
  hashCombine : UInt64 → UInt64 → UInt64

inductive ImportFailure where
  | importPath (e : ImportError)
  | file (path : String)
  | notSuccessful (modules : List String)
  deriving DecidableEq, Repr

def makeFileEvent (Event : Type) (fs : FileSystem) (importPaths : List String) :
    Except ImportFailure (ImportMsg Event) :=
  match importPaths.mapM (splitImportPath fs.fileExists) with
  | .ok paths => .ok (.fileEvent paths)
  | .error e => .error (.importPath e)

def pickFiles (fs : FileSystem) (paths : List ImportPath) (tag : String) : List String :=
  ((paths.filter (·.tag = tag)).map (·.path)).filter fs.isRegularFile

/-- What a call gives that throws on `none`. -/
def orThrow {α : Type} (path : String) : Option α → Except ImportFailure α
  | some a => .ok a
  | none => .error (.file path)

/-- The first 50 MB and the size. -/
def fileHash (fs : FileSystem) (h : Hashing) (path : String) : Except ImportFailure UInt64 := do
  let m ← orThrow path (fs.content path)
  return h.hashCombine (h.hash (m.take (50 * 1024 * 1024)) h.baseHash) (.ofNat m.length)

/-- The events `event` makes of the files with a tag. -/
def importTagged (fs : FileSystem) (h : Hashing) (paths : List ImportPath) (tag : String)
    (event : String → UInt64 → UInt64 → ImportMsg Event) :
    Except ImportFailure (List (ImportMsg Event)) :=
  (pickFiles fs paths tag).mapM fun path => do
    return event path (← fileHash fs h path) (← orThrow path (fs.fileSize path))

def importCoastline (fs : FileSystem) (h : Hashing) (paths : List ImportPath) :
    Except ImportFailure (List (ImportMsg Event)) :=
  importTagged fs h paths "coastline" .coastlineEvent

def importOsm (fs : FileSystem) (h : Hashing) (paths : List ImportPath) :
    Except ImportFailure (List (ImportMsg Event)) :=
  importTagged fs h paths "osm" .osmEvent

/-- The extension is `.hdr` or `.bil`; a name that begins with its only dot has none. -/
def isDemFile (name : String) : Bool :=
  (name.endsWith ".hdr" || name.endsWith ".bil") && 4 < name.length

/-- The names are hashed with the sizes of the files they name in the working directory. -/
def demHash (fs : FileSystem) (h : Hashing) (demFiles : List String) :
    Except ImportFailure UInt64 :=
  demFiles.foldlM (fun hash p => do
    let size ← orThrow p (fs.fileSize p)
    return h.hashCombine (h.hash p.toUTF8.toList hash) size) h.baseHash

def demFiles (fs : FileSystem) (path : String) : List String :=
  ((fs.entries path).filter fun name =>
    fs.isRegularFile (path ++ "/" ++ name) && isDemFile name).mergeSort

def importDem (fs : FileSystem) (h : Hashing) (paths : List ImportPath) :
    Except ImportFailure (List (ImportMsg Event)) :=
  ((paths.filter fun ip => ip.tag = "dem" && fs.isDirectory ip.path &&
      demFiles fs ip.path != []).map (·.path)).mapM fun path => do
    return .demEvent path (← demHash fs h (demFiles fs path))

/-- What the importer of `register_import_files` publishes. -/
def importFiles (fs : FileSystem) (h : Hashing) :
    ImportMsg Event → Except ImportFailure (List (ImportMsg Event))
  | .fileEvent paths => do
    return (← importOsm fs h paths) ++ (← importCoastline fs h paths) ++ (← importDem fs h paths)
  | _ => return []

theorem forall_mapM {α β ε : Type} {f : α → Except ε β} {P : β → Prop} {l : List α} {r : List β}
    (h : l.mapM f = .ok r) (hf : ∀ a b, f a = .ok b → P b) : ∀ b ∈ r, P b := by
  have hall := mapM_ok h
  clear h
  induction hall with
  | nil => simp
  | cons hab _ ih => exact List.forall_mem_cons.mpr ⟨hf _ _ hab, ih⟩

theorem importTagged_isFileEvent {fs : FileSystem} {h : Hashing} {paths : List ImportPath}
    {tag : String} {event : String → UInt64 → UInt64 → ImportMsg Event}
    {published : List (ImportMsg Event)} (hm : importTagged fs h paths tag event = .ok published)
    (hevent : ∀ path hash size, (event path hash size).isFileEvent = false) :
    ∀ m ∈ published, m.isFileEvent = false := by
  refine forall_mapM hm fun path m hpath => ?_
  obtain ⟨hash, -, hpath⟩ := bind_ok hpath
  obtain ⟨size, -, hpath⟩ := bind_ok hpath
  cases hpath
  exact hevent path hash size

theorem importDem_isFileEvent {fs : FileSystem} {h : Hashing} {paths : List ImportPath}
    {published : List (ImportMsg Event)} (hm : importDem fs h paths = .ok published) :
    ∀ m ∈ published, m.isFileEvent = false := by
  refine forall_mapM hm fun path m hpath => ?_
  obtain ⟨hash, -, hpath⟩ := bind_ok hpath
  cases hpath
  rfl

/-- Only a file event is imported, and it brings no file event. -/
theorem importFiles_isFileEvent {fs : FileSystem} {h : Hashing} {m : ImportMsg Event}
    {published : List (ImportMsg Event)} (hm : importFiles fs h m = .ok published) :
    (∀ m' ∈ published, m'.isFileEvent = false) ∧ (m.isFileEvent = false → published = []) := by
  cases m with
  | fileEvent paths =>
    obtain ⟨osm, hosm, hm⟩ := bind_ok hm
    obtain ⟨coastline, hcoastline, hm⟩ := bind_ok hm
    obtain ⟨dem, hdem, hm⟩ := bind_ok hm
    cases hm
    refine ⟨fun m' hm' => ?_, fun hfile => by cases hfile⟩
    rcases List.mem_append.mp hm' with hm' | hm'
    · rcases List.mem_append.mp hm' with hm' | hm'
      · exact importTagged_isFileEvent hosm (fun _ _ _ => rfl) m' hm'
      · exact importTagged_isFileEvent hcoastline (fun _ _ _ => rfl) m' hm'
    · exact importDem_isFileEvent hdem m' hm'
  | _ =>
    cases hm
    simp

/-! ### import_dispatcher -/

abbrev FileDispatcher (Event : Type) := ImportDispatcher (ImportMsg Event)

/-- The operations of the collectors. -/
abbrev ImportOps (Event : Type) :=
  ℕ → Dependencies (ImportMsg Event) → List (ImportMsg Event)

namespace FileDispatcher
variable (fs : FileSystem) (h : Hashing) (op : ImportOps Event)

/-- One iteration of `run`: the importer of the files is the first one. -/
def iterate (d : FileDispatcher Event) : Except ImportFailure (FileDispatcher Event) :=
  match d.publishQueue with
  | [] => .ok d
  | m :: rest => do
    let published ← importFiles fs h m
    return d.importers.foldl (ImportDispatcher.deliver ImportMsg.isSuccess op m)
      { d with publishQueue := rest ++ published, processed := d.processed ++ [m] }

/-- A message was processed and has let the operations `fired` run. -/
structure Iterated (m : ImportMsg Event) (published : List (ImportMsg Event))
    (fired : List (ℕ × Dependencies (ImportMsg Event))) (d d' : FileDispatcher Event) : Prop where
  importers : d'.importers = d.importers
  popped : ∃ rest, d.publishQueue = m :: rest ∧
    d'.publishQueue = rest ++ published ++ fired.flatMap fun f => op f.1 f.2
  processed : d'.processed = d.processed ++ [m]
  files : importFiles fs h m = .ok published
  runs : ∀ i, (d'.collectors i).runs =
    (d.collectors i).runs ++ (fired.filter (·.1 == i)).map (·.2)
  card_unexecuted : d'.unexecuted.card + fired.length = d.unexecuted.card

variable {fs h op}

theorem iterate_spec {d d' : FileDispatcher Event} (hd : d.iterate fs h op = .ok d')
    (hqueue : d.publishQueue ≠ []) :
    ∃ m published fired, Iterated fs h op m published fired d d' := by
  rw [iterate] at hd
  cases hq : d.publishQueue with
  | nil => exact absurd hq hqueue
  | cons m rest =>
    rw [hq] at hd
    obtain ⟨published, hfiles, hd⟩ := bind_ok hd
    obtain rfl := Except.ok.inj hd
    obtain ⟨fired, hfired⟩ := foldl_deliver_spec ImportMsg.isSuccess op m d.importers
      { d with publishQueue := rest ++ published, processed := d.processed ++ [m] }
    refine ⟨m, published, fired, hfired.importers, ⟨rest, hq, hfired.queue⟩, hfired.processed,
      hfiles, hfired.runs, ?_⟩
    exact hfired.card_unexecuted (List.Subset.refl _)

/-- Fewer collectors that have not run, or fewer file events in the queue, or a shorter queue. -/
def Before (d' d : FileDispatcher Event) : Prop :=
  Prod.Lex (· < ·) (Prod.Lex (· < ·) (· < ·))
    (d'.unexecuted.card, d'.publishQueue.countP ImportMsg.isFileEvent, d'.publishQueue.length)
    (d.unexecuted.card, d.publishQueue.countP ImportMsg.isFileEvent, d.publishQueue.length)

theorem Iterated.before {m : ImportMsg Event} {published : List (ImportMsg Event)}
    {fired : List (ℕ × Dependencies (ImportMsg Event))} {d d' : FileDispatcher Event}
    (hd : Iterated fs h op m published fired d d') : Before d' d := by
  obtain ⟨rest, hpopped, hqueue⟩ := hd.popped
  have hcard := hd.card_unexecuted
  obtain ⟨hno, hnone⟩ := importFiles_isFileEvent hd.files
  rw [Before]
  cases fired with
  | cons f fired =>
    refine Prod.Lex.left _ _ ?_
    rw [List.length_cons] at hcard
    omega
  | nil =>
    have hcount : published.countP ImportMsg.isFileEvent = 0 := by
      rw [List.countP_eq_zero]
      intro m' hm'
      simp [hno m' hm']
    have hsame : d'.unexecuted.card = d.unexecuted.card := hcard
    rw [hsame]
    refine Prod.Lex.right _ ?_
    cases hfile : m.isFileEvent with
    | true =>
      refine Prod.Lex.left _ _ ?_
      simp [hqueue, hpopped, hcount, hfile]
    | false =>
      have hnil := hnone hfile
      have hsameCount : d'.publishQueue.countP ImportMsg.isFileEvent =
          d.publishQueue.countP ImportMsg.isFileEvent := by
        simp [hqueue, hpopped, hcount, hfile]
      rw [hsameCount]
      refine Prod.Lex.right _ ?_
      simp [hqueue, hpopped, hnil]

theorem iterate_before {d d' : FileDispatcher Event} (hd : d.iterate fs h op = .ok d')
    (hqueue : d.publishQueue ≠ []) : Before d' d := by
  obtain ⟨m, published, fired, hiterated⟩ := iterate_spec hd hqueue
  exact hiterated.before

variable (fs h op)

/-- `run`: an operation runs at most once, and a file event brings no file event. -/
def run (d : FileDispatcher Event) : Except ImportFailure (FileDispatcher Event) :=
  if hqueue : d.publishQueue = [] then .ok d
  else
    match hd : d.iterate fs h op with
    | .error e => .error e
    | .ok d' =>
      have : Before d' d := iterate_before hd hqueue
      d'.run
termination_by (d.unexecuted.card, d.publishQueue.countP ImportMsg.isFileEvent,
  d.publishQueue.length)
decreasing_by assumption

end FileDispatcher

/-! ### motis_instance -/

structure ModuleSettings where
  modules : List String
  excludeModules : List String

def ModuleSettings.isModuleActive (settings : ModuleSettings) (name : String) : Bool :=
  settings.modules.contains name && !settings.excludeModules.contains name

/-- What `import` uses of a module: the collectors it registers and whether its import was
    successful, depending on what their operations were run with. -/
structure ImportModule (Event : Type) where
  moduleName : String
  collectors : List (CollectorSetup (ImportMsg Event)) := []
  importSuccessful : List (List (Dependencies (ImportMsg Event))) → Bool := fun _ => true

/-- The collectors in the order of their registration. -/
def registered (modules : List (ImportModule Event)) (settings : ModuleSettings) :
    List (CollectorSetup (ImportMsg Event)) :=
  (modules.filter fun m => settings.isModuleActive m.moduleName).flatMap (·.collectors)

/-- A collector that was not registered. -/
def noCollector : CollectorSetup (ImportMsg Event) where
  requirements := []
  distinct := List.nodup_nil
  op := fun _ => []

def setupAt (setups : List (CollectorSetup (ImportMsg Event))) (i : ℕ) :
    CollectorSetup (ImportMsg Event) :=
  setups.getD i noCollector

/-- The calls of `require`, in their order. -/
def subscribed (setups : List (CollectorSetup (ImportMsg Event))) :
    List (Importer (ImportMsg Event)) :=
  setups.zipIdx.flatMap fun s => s.1.requirements.map fun req => ⟨s.2, req⟩

/-- The dispatcher once all importers are subscribed. -/
def initDispatcher (setups : List (CollectorSetup (ImportMsg Event))) : FileDispatcher Event where
  importers := subscribed setups
  collectors := fun i => (setupAt setups i).init

/-- The run of the dispatcher in `import`. -/
def runImport (fs : FileSystem) (h : Hashing) (setups : List (CollectorSetup (ImportMsg Event)))
    (importPaths : List String) : Except ImportFailure (FileDispatcher Event) := do
  let op : ImportOps Event := fun i => (setupAt setups i).op
  -- Dummy message to trigger initial progress updates.
  let d ← FileDispatcher.run fs h op ((initDispatcher setups).publish .motisSuccess)
  -- Paths as actual trigger for import processing.
  FileDispatcher.run fs h op (d.publish (← makeFileEvent Event fs importPaths))

/-- The names of the modules that are not successful; their collectors are in the places from `n`
    on. -/
def unsuccessfulImports (d : FileDispatcher Event) : ℕ → List (ImportModule Event) → List String
  | _, [] => []
  | n, m :: modules =>
    let runs := (List.range' n m.collectors.length).map fun i => (d.collectors i).runs
    let others := unsuccessfulImports d (n + m.collectors.length) modules
    if m.importSuccessful runs then others else m.moduleName :: others

structure ImportSettings where
  importPaths : List String
  requireSuccessful : Bool

def importModules (fs : FileSystem) (h : Hashing) (modules : List (ImportModule Event))
    (moduleOpt : ModuleSettings) (importOpt : ImportSettings) :
    Except ImportFailure (FileDispatcher Event) := do
  let d ← runImport fs h (registered modules moduleOpt) importOpt.importPaths
  if importOpt.requireSuccessful then
    let active := modules.filter fun m => moduleOpt.isModuleActive m.moduleName
    let unsuccessful := unsuccessfulImports d 0 active
    if unsuccessful ≠ [] then throw (.notSuccessful unsuccessful)
  return d

end Motis.Bootstrap
