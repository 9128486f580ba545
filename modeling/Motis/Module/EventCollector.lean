import Mathlib.Data.Finset.Basic
import Mathlib.Logic.Function.Basic

/-! The collection of import events.

    A collector requires events by name, each with a matcher, and subscribes one importer for each
    of them. An importer keeps the last message its matcher accepts; the one that fills the last gap
    runs the operation of the collector with all messages kept. The dispatcher hands the published
    messages to all importers one after the other; what an operation publishes is queued.

    Messages are opaque: `isSuccess` tells the dummy messages that ask for the status. -/

namespace Motis.Module

/-- `dependencies_map_t`. -/
abbrev Dependencies (Msg : Type) := Std.TreeMap String Msg

structure Requirement (Msg : Type) where
  name : String
  matcher : Msg → Bool

/-- A collector as it is set up. The operation gives the messages it publishes; when it throws,
    those it has published before. -/
structure CollectorSetup (Msg : Type) where
  requirements : List (Requirement Msg)
  distinct : (requirements.map (·.name)).Nodup
  op : Dependencies Msg → List Msg

structure EventCollector (Msg : Type) where
  dependencies : Dependencies Msg := ∅
  waitingFor : Finset String := ∅
  executed : Bool := false
  /-- The arguments the operation was run with so far. -/
  runs : List (Dependencies Msg) := []

variable {Msg : Type} (isSuccess : Msg → Bool)

/-- The collector after all calls of `require`. -/
def CollectorSetup.init (s : CollectorSetup Msg) : EventCollector Msg :=
  { waitingFor := (s.requirements.map (·.name)).toFinset }

/-- The importer subscribed for a requirement: the collector and what its operation publishes. -/
def EventCollector.onMsg (op : Dependencies Msg → List Msg) (req : Requirement Msg)
    (c : EventCollector Msg) (msg : Msg) : EventCollector Msg × List Msg :=
  if isSuccess msg then (c, [])
  else if !req.matcher msg then (c, [])
  else if c.executed then (c, [])
  else
    let c := { c with
      dependencies := c.dependencies.insert req.name msg
      waitingFor := c.waitingFor.erase req.name }
    if c.waitingFor ≠ ∅ then (c, [])
    else ({ c with executed := true, runs := c.runs ++ [c.dependencies] }, op c.dependencies)

/-- All importers of one collector get a message. -/
def CollectorSetup.process (s : CollectorSetup Msg) (c : EventCollector Msg) (msg : Msg) :
    EventCollector Msg :=
  s.requirements.foldl (fun c req => (c.onMsg isSuccess s.op req msg).1) c

/-- The collector after a history of messages. -/
def CollectorSetup.collect (s : CollectorSetup Msg) (history : List Msg) : EventCollector Msg :=
  history.foldl (s.process isSuccess) s.init

/-! ### import_dispatcher -/

/-- An importer of the dispatcher: a requirement of one of the collectors. -/
structure Importer (Msg : Type) where
  collector : ℕ
  requirement : Requirement Msg

structure ImportDispatcher (Msg : Type) where
  importers : List (Importer Msg)
  publishQueue : List Msg := []
  collectors : ℕ → EventCollector Msg
  /-- The messages taken from the queue so far. -/
  processed : List Msg := []

variable (op : ℕ → Dependencies Msg → List Msg)

namespace ImportDispatcher

def publish (d : ImportDispatcher Msg) (m : Msg) : ImportDispatcher Msg :=
  { d with publishQueue := d.publishQueue ++ [m] }

/-- One importer gets the message. -/
def deliver (m : Msg) (d : ImportDispatcher Msg) (i : Importer Msg) : ImportDispatcher Msg :=
  let (c, published) :=
    (d.collectors i.collector).onMsg isSuccess (op i.collector) i.requirement m
  { d with
    collectors := Function.update d.collectors i.collector c
    publishQueue := d.publishQueue ++ published }

/-- One iteration of `run`. -/
def runStep (d : ImportDispatcher Msg) : ImportDispatcher Msg :=
  match d.publishQueue with
  | [] => d
  | m :: rest =>
    d.importers.foldl (deliver isSuccess op m)
      { d with publishQueue := rest, processed := d.processed ++ [m] }

end ImportDispatcher

end Motis.Module
