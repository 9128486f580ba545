import Mathlib.Algebra.Order.BigOperators.Group.List
import Mathlib.Algebra.Order.Ring.Nat
import Mathlib.Data.List.Dedup
import Motis.Core.Journey.CheckJourney
import Motis.Core.Journey.JourneyMessage
import Motis.Lib.InsertionMap

/-! The comparator of routing responses.

    Each file has the responses of one run of the server, in the order they came back, and beside it
    the queries of that run. A round reads one line of every file; a query that has then been read
    and answered in all files is compared:

        responses 1    3  1  2            round 1   3 1
        responses 2    1  3  2            round 2   1 3     both compared
        queries 1, 2   1  2  3            round 3   2 2     compared -/

namespace Motis.Intermodal.Comparator

/-! ### Comparing responses -/

inductive QueryType where
  | pretrip | ontripFwd | ontripBwd
  deriving DecidableEq, Repr

inductive SearchDir where
  | forward | backward
  deriving DecidableEq, Repr

inductive IntermodalStart where
  | none | intermodalOntripStart | intermodalPretripStart | ontripTrainStart | ontripStationStart
  | pretripStart
  deriving DecidableEq, Repr

inductive Start where
  | none | ontripTrainStart | ontripStationStart | pretripStart
  deriving DecidableEq, Repr

/-- What is compared of a query. -/
inductive Request where
  | intermodal (startType : IntermodalStart) (searchDir : SearchDir)
  | routing (startType : Start) (searchDir : SearchDir)
  deriving DecidableEq, Repr

def SearchDir.ontrip : SearchDir → QueryType
  | forward => .ontripFwd
  | backward => .ontripBwd

def getQueryType : Request → QueryType
  | .intermodal startType searchDir =>
    if startType = .intermodalPretripStart ∨ startType = .pretripStart then .pretrip
    else searchDir.ontrip
  | .routing startType searchDir =>
    if startType = .pretripStart then .pretrip else searchDir.ontrip

/-- `none` without stops, where the source reads past the end. -/
def departureTime (j : Journey) : Option Unixtime := j.stops.head?.map (·.departure.timestamp)

def arrivalTime (j : Journey) : Option Unixtime := j.stops.getLast?.map (·.arrival.timestamp)

def hasConnection (connections : List Journey) (refCon : Journey) : QueryType → Bool
  | .pretrip => connections.any fun con =>
    con.duration == refCon.duration && con.transfers == refCon.transfers &&
      con.accessibility == refCon.accessibility && departureTime con == departureTime refCon &&
      arrivalTime con == arrivalTime refCon
  | .ontripFwd => connections.any fun con =>
    con.transfers == refCon.transfers && con.accessibility == refCon.accessibility &&
      arrivalTime con == arrivalTime refCon
  | .ontripBwd => connections.any fun con =>
    con.transfers == refCon.transfers && con.accessibility == refCon.accessibility &&
      departureTime con == departureTime refCon

inductive Error where
  /-- `queries.at(0)`. -/
  | outOfRange
  | journey (e : Counters.Error)
  deriving DecidableEq, Repr

/-- No journey is broken. -/
def checkJourneys (journeys : List Journey) : Except Error Bool :=
  match journeys.mapM checkJourney with
  | .ok verdicts => .ok (verdicts.all (·.1))
  | .error e => .error (.journey e)

abbrev Response := List Fbs.Connection

/-- `message_to_journeys`. -/
def messageToJourneys (response : Response) : List Journey := response.map JourneyMessage.convert

/-- For every file but the first, the reference. -/
def checkFile (queryType : QueryType) (ref : List Journey) (response : Response) :
    Except Error Bool := do
  let r := messageToJourneys response
  let ok ← checkJourneys r
  return r.length == ref.length && ref.all (hasConnection r · queryType) &&
    r.all (hasConnection ref · queryType) && ok

/-- For each file, whether it has not failed. -/
def check (responses : List Response) (queries : List Request) : Except Error (List Bool) := do
  let query ← match queries with
    | [] => throw .outOfRange
    | query :: _ => pure query
  let ref := messageToJourneys (responses.headD [])
  let ok ← checkJourneys ref
  let files ← responses.tail.mapM (checkFile (getQueryType query) ref)
  return ok :: files

/-! ### Reading the files -/

/-- A line of a file; other messages than responses or queries are skipped. -/
inductive Line (α : Type) where
  | message (id : ℤ) (content : α)
  | other
  deriving DecidableEq, Repr

structure Files where
  withQueries : Bool := true
  queries : ℕ → List (Line Request) := fun _ => []
  responses : ℕ → List (Line Response)

def Line.message? {α : Type} : Line α → Option (ℤ × α)
  | message id content => some (id, content)
  | other => none

def headId {α : Type} (lines : List (Line α)) : Option ℤ :=
  (lines.head?.bind Line.message?).map (·.1)

/-- `read` and `done` of a round: the ids that are read, in any order but each once. -/
def Files.ids (files : Files) (n : ℕ) : List ℤ :=
  ((List.range n).flatMap fun i =>
    (if files.withQueries then headId (files.queries i) else none).toList ++
      (headId (files.responses i)).toList).dedup

def Files.next (files : Files) : Files :=
  { files with
    queries := fun i => (files.queries i).tail
    responses := fun i => (files.responses i).tail }

structure State where
  queuedQueries : ℕ → List (ℤ × Request) := fun _ => []
  queuedMsgs : ℕ → List (ℤ × Response) := fun _ => []
  fileErrors : List ℕ
  msgCount : ℕ := 0
  nonEmptyMsgCount : ℕ := 0
  errors : ℕ := 0

/-- `queued[m->id()] = m` -/
def enqueue {α : Type} (queue : List (ℤ × α)) (line : Option (Line α)) : List (ℤ × α) :=
  match line.bind Line.message? with
  | some (id, m) => InsertionMap.set queue id m
  | none => queue

def State.readLines (st : State) (files : Files) : State :=
  { st with
    queuedQueries := fun i =>
      if files.withQueries then enqueue (st.queuedQueries i) (files.queries i).head?
      else st.queuedQueries i
    queuedMsgs := fun i => enqueue (st.queuedMsgs i) (files.responses i).head? }

/-- The response of a file, and its query if there are any. -/
def State.find (st : State) (withQueries : Bool) (id : ℤ) (i : ℕ) :
    Option (Response × Option Request) := do
  let msg ← (st.queuedMsgs i).lookup id
  if withQueries then return (msg, some (← (st.queuedQueries i).lookup id))
  else return (msg, none)

/-- After a comparison, with what has not failed. -/
def State.count (st : State) (id : ℤ) (response : Response) (oks : List Bool) : State :=
  { st with
    msgCount := st.msgCount + 1
    errors := st.errors + if oks.all (·) then 0 else 1
    -- counts the empty ones
    nonEmptyMsgCount := st.nonEmptyMsgCount + if response = [] then 1 else 0
    fileErrors := List.zipWith (fun e ok => if ok then e else e + 1) st.fileErrors oks
    queuedMsgs := fun i => (st.queuedMsgs i).filter (·.1 ≠ id) }

/-- One of the ids that have been read. -/
def joinId (withQueries : Bool) (n : ℕ) (st : State) (id : ℤ) : Except Error State :=
  match (List.range n).mapM (st.find withQueries id) with
  | none => .ok st
  | some found => do
    let msgs := found.map (·.1)
    let oks ← check msgs (found.filterMap (·.2))
    return st.count id (msgs.headD []) oks

/-- The lines that are left. -/
def Files.size (files : Files) (n : ℕ) : ℕ :=
  ((List.range n).map fun i => (files.queries i).length + (files.responses i).length).sum

theorem length_pos_of_headId {α : Type} {lines : List (Line α)} {id : ℤ}
    (h : headId lines = some id) : 0 < lines.length := by
  cases lines with
  | nil => cases h
  | cons line lines => exact Nat.succ_pos _

theorem mem_ids {files : Files} {n : ℕ} {id : ℤ} : id ∈ files.ids n ↔ ∃ i < n,
    (files.withQueries = true ∧ headId (files.queries i) = some id) ∨
      headId (files.responses i) = some id := by
  simp only [Files.ids, List.mem_dedup, List.mem_flatMap, List.mem_range, List.mem_append,
    Option.mem_toList]
  refine exists_congr fun i => and_congr_right fun _ => or_congr ?_ Iff.rfl
  cases files.withQueries <;> simp

theorem size_next_lt {files : Files} {n : ℕ} (h : files.ids n ≠ []) :
    files.next.size n < files.size n := by
  obtain ⟨id, hid⟩ := List.exists_mem_of_ne_nil _ h
  obtain ⟨i, hi, hread⟩ := mem_ids.mp hid
  refine List.sum_lt_sum _ _ (fun j _ => ?_) ⟨i, List.mem_range.mpr hi, ?_⟩
  · simp only [Files.next, List.length_tail]
    omega
  · simp only [Files.next, List.length_tail]
    rcases hread with ⟨-, hquery⟩ | hresponse
    · have := length_pos_of_headId hquery
      omega
    · have := length_pos_of_headId hresponse
      omega

/-- The rounds until one has read nothing. -/
def rounds (order : List ℤ → List ℤ) (n : ℕ) (files : Files) (st : State) : Except Error State :=
  if files.ids n = [] then .ok (st.readLines files)
  else do
    let st ← (order (files.ids n)).foldlM (joinId files.withQueries n) (st.readLines files)
    rounds order n files.next st
termination_by files.size n
decreasing_by exact size_next_lt ‹_›

/-- The ids of the messages that are missing in some files. -/
def unmatchedMsgs (n : ℕ) (st : State) : List ℤ :=
  ((List.range n).flatMap fun i => (st.queuedMsgs i).map (·.1)).dedup

/-- The state in the end and the exit code; with less than two files only the help is shown. -/
def compare (order : List ℤ → List ℤ) (n : ℕ) (files : Files) : Except Error (State × ℕ) :=
  if n < 2 then .ok ({ fileErrors := [] }, 0)
  else do
    let st ← rounds order n files { fileErrors := List.replicate n 0 }
    return (st, if st.errors = 0 ∧ unmatchedMsgs n st = [] then 0 else 1)

end Motis.Intermodal.Comparator
