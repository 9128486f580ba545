import Motis.Core.Journey.Journey
import Motis.Lib.Insertion

/-! Post-processing of intermodal journeys: parking patches and GBFS patches.

    Routing returns a walk for every mumo edge. A car parking walk becomes a drive and a walk with
    the parking place between them, a GBFS walk becomes two or three walks and rides. Every such
    split inserts a stop, doubles the transport and renumbers all ranges of the journey, and those
    of the patches in the list it is given. The two lists are applied one after the other.

        walk [i, i+1]  ──▶  first [i, i+1]   second [i+1, i+2]      new stop i+1 -/

namespace Motis.Intermodal
open Insertion Journey
open Ranged (range setRange)

/-- The exceptions of the patches. -/
inductive Error where
  | invalidTransport
  | parkingEdgeError
  | outOfRange
  deriving DecidableEq, Repr

inductive MumoType where
  | foot | bike | car | carParking | gbfs
  deriving DecidableEq, Repr

/-- `to_string(mumo_type)`. -/
def MumoType.toString : MumoType → String
  | .foot => "foot"
  | .bike => "bike"
  | .car => "car"
  | .carParking => "car_parking"
  | .gbfs => "gbfs"

structure LatLng where
  lat : Double := 0
  lng : Double := 0
  deriving DecidableEq, Repr

structure CarParkingEdge where
  parkingPos : LatLng := {}
  carDuration : UInt16 := 0
  footDuration : UInt16 := 0
  usesCar : Bool := false
  deriving DecidableEq, Repr

structure FreeBike where
  walkDuration : UInt16
  id : String
  pos : LatLng := {}
  deriving DecidableEq, Repr

structure StationBike where
  firstWalkDuration : UInt16
  bikeDuration : UInt16
  fromStationName : String
  toStationName : String
  fromStationId : String
  toStationId : String
  fromStationPos : LatLng := {}
  toStationPos : LatLng := {}
  deriving DecidableEq, Repr

inductive Bike where
  | freeBike (b : FreeBike)
  | stationBike (s : StationBike)
  deriving DecidableEq, Repr

structure GbfsEdge where
  vehicleType : String
  bike : Bike
  deriving DecidableEq, Repr

/-- The type of a mumo edge with the value that belongs to it: `car_parking_` may be unset, every
    edge of type `GBFS` has its `gbfs_`. -/
inductive MumoKind where
  | foot | bike | car
  | carParking (edge : Option CarParkingEdge)
  | gbfs (edge : GbfsEdge)
  deriving DecidableEq, Repr

def MumoKind.type : MumoKind → MumoType
  | .foot => .foot
  | .bike => .bike
  | .car => .car
  | .carParking _ => .carParking
  | .gbfs _ => .gbfs

structure MumoEdge where
  kind : MumoKind
  id : Int32 := 0
  deriving DecidableEq, Repr

/-- `parking_patch`, with the part of its edge that the patch uses. -/
structure ParkingPatch (E : Type) where
  e : E
  from_ : ℕ
  to_ : ℕ
  deriving DecidableEq, Repr

instance (E : Type) : Ranged (ParkingPatch E) :=
  ⟨fun p => (p.from_, p.to_), fun p r => { p with from_ := r.1, to_ := r.2 },
    fun _ _ => rfl, fun _ _ _ => rfl, fun _ => rfl⟩

/-- What `split_transport` returns, the references as positions. -/
structure SplitTransportResult (E : Type) where
  journey : Journey
  patches : List (ParkingPatch E)
  parkingStop : ℕ
  firstTransport : ℕ
  secondTransport : ℕ

def updateIndices {α : Type} [Ranged α] (newStopIdx : ℕ) (v : List α) : List α :=
  v.map (renumber (shift newStopIdx))

/-- The journey with a new stop at `newStopIdx`; transport `transportIdx` is divided there. -/
def insertStop (j : Journey) (transportIdx newStopIdx : ℕ) : Journey :=
  let transports := dup (updateIndices newStopIdx j.transports) transportIdx
  let transports := transports.modify transportIdx fun t => { t with to_ := t.to_ - 1 }
  { j with
    stops := j.stops.insertIdx newStopIdx {}
    transports := transports.modify (transportIdx + 1) fun t => { t with from_ := t.from_ + 1 }
    trips := updateIndices newStopIdx j.trips
    attributes := updateIndices newStopIdx j.attributes
    freeTexts := updateIndices newStopIdx j.freeTexts
    problems := updateIndices newStopIdx j.problems }

/-- `split_transport`: the first transport with the range of `transport` is divided. -/
def splitTransport {E : Type} (j : Journey) (patches : List (ParkingPatch E))
    (transport : Transport) : Except Error (SplitTransportResult E) := do
  if transport.to_ ≠ transport.from_ + 1 then throw .invalidTransport
  let transportIdx := j.transports.findIdx (range · == range transport)
  let newStopIdx := transport.to_
  pure { journey := insertStop j transportIdx newStopIdx
         patches := updateIndices newStopIdx patches
         parkingStop := newStopIdx
         firstTransport := transportIdx
         secondTransport := transportIdx + 1 }

def stationStart : String := "START"
def stationEnd : String := "END"

def getParkingStation : ℕ → Except Error String
  | 0 => pure "VIA0"
  | 1 => pure "VIA1"
  | 2 => pure "VIA2"
  | 3 => pure "VIA3"
  | _ => throw .parkingEdgeError

/-- The position of the first transport with the range. -/
def getTransport (j : Journey) (from_ to_ : ℕ) : Except Error ℕ :=
  match j.transports.findIdx? (range · == (from_, to_)) with
  | some i => pure i
  | none => throw .parkingEdgeError

def isVirtualStation (s : Stop) : Bool := s.name == stationStart || s.name == stationEnd

/-- `duration * 60`, added to a timestamp. -/
def seconds (minutes : UInt16) : Unixtime := Int64.ofNat (minutes.toNat * 60)

def setMumoType (j : Journey) (transport : ℕ) (type : String) : Journey :=
  { j with transports := j.transports.modify transport fun t => { t with mumoType := type } }

/-- `j.stops_.at(i) = f(..)`. -/
def setStop (j : Journey) (i : ℕ) (f : Stop → Stop) : Except Error Journey :=
  if i < j.stops.length then pure { j with stops := j.stops.modify i f } else throw .outOfRange

/-- The state of the loop over the patches; `splits` lists the transports it has divided. -/
structure PatchRun (E : Type) where
  journey : Journey
  patches : List (ParkingPatch E)
  splits : List ℕ := []

/-- The loop body of `apply_parking_patches`. -/
def applyParkingPatch (parkingIdx : ℕ) (p : ParkingPatch CarParkingEdge)
    (s : PatchRun CarParkingEdge) : Except Error (PatchRun CarParkingEdge) := do
  let j := s.journey
  let t ← getTransport j p.from_ p.to_
  let carFirst := isVirtualStation (j.stops.getD p.from_ {})
  let firstEdgeDuration := seconds (if carFirst then p.e.carDuration else p.e.footDuration)
  let str ← splitTransport j s.patches (j.transports.getD t {})
  let parkingStation ← getParkingStation parkingIdx
  let from_ := str.journey.stops.getD p.from_ {}
  let j ← setStop str.journey str.parkingStop fun stop =>
    let arrival := { stop.arrival with
      valid := true
      timestamp := from_.departure.timestamp + firstEdgeDuration
      scheduleTimestamp := from_.departure.scheduleTimestamp + firstEdgeDuration
      timestampReason := from_.departure.timestampReason }
    { stop with
      evaNo := parkingStation, name := parkingStation
      lat := p.e.parkingPos.lat, lng := p.e.parkingPos.lng
      arrival := arrival, departure := arrival }
  let carTransport := if carFirst then str.firstTransport else str.secondTransport
  let footTransport := if carFirst then str.secondTransport else str.firstTransport
  let j := setMumoType j carTransport MumoType.car.toString
  let j := setMumoType j footTransport MumoType.foot.toString
  pure { journey := j, patches := str.patches, splits := s.splits ++ [str.firstTransport] }

/-- A stop of a bike ride, reached `duration` minutes after leaving the stop `before`. -/
def bikeStop (id name : String) (pos : LatLng) (before : Stop) (duration : UInt16) (stop : Stop) :
    Stop :=
  let timestamp := before.departure.timestamp + seconds duration
  let arrival := { stop.arrival with
    valid := true
    timestamp := timestamp
    scheduleTimestamp := timestamp
    timestampReason := before.departure.timestampReason }
  { stop with
    evaNo := id, name := name, lat := pos.lat, lng := pos.lng
    arrival := arrival, departure := arrival }

/-- The loop body of `apply_gbfs_patches`. -/
def applyGbfsPatch (p : ParkingPatch GbfsEdge) (s : PatchRun GbfsEdge) :
    Except Error (PatchRun GbfsEdge) := do
  let j := s.journey
  let t ← getTransport j p.from_ p.to_
  let str1 ← splitTransport j s.patches (j.transports.getD t {})
  match p.e.bike with
  | .stationBike b =>
    let str2 ← splitTransport str1.journey str1.patches
      (str1.journey.transports.getD str1.secondTransport {})
    let j := str2.journey
    let j ← setStop j (p.from_ + 1) (bikeStop b.fromStationId b.fromStationName b.fromStationPos
      (j.stops.getD p.from_ {}) b.firstWalkDuration)
    let j ← setStop j (p.from_ + 2) (bikeStop b.toStationId b.toStationName b.toStationPos
      (j.stops.getD (p.from_ + 1) {}) b.bikeDuration)
    let j := setMumoType j (← getTransport j p.from_ (p.from_ + 1)) MumoType.foot.toString
    let j := setMumoType j (← getTransport j (p.from_ + 1) (p.from_ + 2)) p.e.vehicleType
    let j := setMumoType j (← getTransport j (p.from_ + 2) (p.from_ + 3)) MumoType.foot.toString
    pure { journey := j, patches := str2.patches
           splits := s.splits ++ [str1.firstTransport, str2.firstTransport] }
  | .freeBike b =>
    let j := str1.journey
    let j ← setStop j str1.parkingStop (bikeStop b.id b.id b.pos (j.stops.getD p.from_ {})
      b.walkDuration)
    let j := setMumoType j str1.firstTransport MumoType.foot.toString
    let j := setMumoType j str1.secondTransport MumoType.bike.toString
    pure { journey := j, patches := str1.patches, splits := s.splits ++ [str1.firstTransport] }

/-- `for (auto& p : patches)`: the body sees what it has done to the patches so far. -/
def forPatches {E : Type}
    (body : ℕ → ParkingPatch E → PatchRun E → Except Error (PatchRun E)) (s : PatchRun E) :
    Except Error (PatchRun E) :=
  (List.range s.patches.length).foldlM (fun s i =>
    match s.patches[i]? with
    | some p => body i p s
    | none => pure s) s

def applyParkingPatches (j : Journey) (patches : List (ParkingPatch CarParkingEdge)) :
    Except Error (PatchRun CarParkingEdge) :=
  forPatches applyParkingPatch { journey := j, patches := patches }

def applyGbfsPatches (j : Journey) (patches : List (ParkingPatch GbfsEdge)) :
    Except Error (PatchRun GbfsEdge) :=
  forPatches (fun _ => applyGbfsPatch) { journey := j, patches := patches }

/-- Both lists of patches; the journey, and the transports divided on the way. -/
def applyPatches (j : Journey) (parkingPatches : List (ParkingPatch CarParkingEdge))
    (gbfsPatches : List (ParkingPatch GbfsEdge)) : Except Error (Journey × List ℕ) := do
  let parking ← applyParkingPatches j parkingPatches
  let gbfs ← applyGbfsPatches parking.journey gbfsPatches
  pure (gbfs.journey, parking.splits ++ gbfs.splits)

/-- The loop of `postprocess_response` that labels the mumo walks and records the patches. -/
def collectPatches (edgeMapping : List MumoEdge) : List Transport →
    Except Error (List Transport × List (ParkingPatch CarParkingEdge) ×
      List (ParkingPatch GbfsEdge))
  | [] => pure ([], [], [])
  | t :: ts => do
    if !t.isWalk || t.mumoId < 0 then
      let (ts, ps, gs) ← collectPatches edgeMapping ts
      pure (t :: ts, ps, gs)
    else
      match edgeMapping[t.mumoId.toInt.toNat]? with
      | none => throw .outOfRange
      | some e =>
        let t := { t with mumoType := e.kind.type.toString, mumoId := e.id }
        let (ts, ps, gs) ← collectPatches edgeMapping ts
        match e.kind with
        | .carParking (some c) =>
          if !c.usesCar then
            pure ({ t with mumoType := MumoType.foot.toString } :: ts, ps, gs)
          else pure (t :: ts, ⟨c, t.from_, t.to_⟩ :: ps, gs)
        | .gbfs g => pure (t :: ts, ps, ⟨g, t.from_, t.to_⟩ :: gs)
        | _ => pure (t :: ts, ps, gs)

/-- What `postprocess_response` does to the transports of one journey. -/
def postprocessJourney (edgeMapping : List MumoEdge) (j : Journey) :
    Except Error (Journey × List ℕ) := do
  let (transports, parkingPatches, gbfsPatches) ← collectPatches edgeMapping j.transports
  applyPatches { j with transports := transports } parkingPatches gbfsPatches

end Motis.Intermodal
