import Mathlib.Algebra.GroupWithZero.Nat
import Motis.Lib.Best
import Motis.Lib.RowMajor

/-! Routes with rented bikes and cars.

    A forward search goes from a position x to the targets p, a backward search from them to x, with
    a vehicle b that stands somewhere or one that is taken from one station to another:

        forward     x ──walk──▶ b ──ride──▶ p        x ──walk──▶ sx ──ride──▶ sp ──walk──▶ p
        backward    p ──walk──▶ b ──ride──▶ x        p ──walk──▶ sp ──ride──▶ sx ──walk──▶ x

    The targets are stops, and behind them the direct ones. For each of them the best journey so far
    is kept, over all pairs of places. -/

namespace Motis.Gbfs

/-! ### Durations -/

/-- A duration in seconds as a `double`: whole seconds, or `numeric_limits<double>::max()`. -/
inductive Cost where
  | seconds (s : ℕ)
  | max
  deriving DecidableEq, Repr

/-- `osr::table` writes the greatest value where there is no way. -/
def tableCost : Option ℕ → Cost
  | some s => .seconds s
  | none => .max

/-- `osr::one_to_many` writes the greatest `uint16_t`. -/
def oneToManyCost : Option ℕ → Cost
  | some s => .seconds s
  | none => .seconds 65535

def oneToManyResponse (n : ℕ) (f : ℕ → Option ℕ) : List Cost :=
  (List.range n).map fun i => oneToManyCost (f i)

def tableResponse (n m : ℕ) (f : ℕ → ℕ → Option ℕ) : List Cost :=
  RowMajor.rowMajor n m fun i j => tableCost (f i j)

/-- `std::ceil(s / 60.0)` -/
def ceilMinutes (s : ℕ) : ℕ := (s + 59) / 60

/-- `static_cast<duration>(std::ceil(cost / 60.0))`. The result for a value that `duration` does not
    hold is undefined, here it is a parameter. -/
def toDuration (undefined : Cost → UInt16) : Cost → ℕ
  | .seconds s =>
    if ceilMinutes s < 2 ^ 16 then ceilMinutes s else (undefined (.seconds s)).toNat
  | .max => (undefined .max).toNat

def bikeReadyTime : ℕ := 3

/-! ### Journeys -/

/-- `journey::s`, with stations, and `journey::b`, free-floating. -/
inductive JourneyInfo where
  | s (firstWalkDuration bikeDuration secondWalkDuration sx sp p : ℕ)
  | b (walkDuration bikeDuration b p : ℕ)
  deriving DecidableEq, Repr

def JourneyInfo.p : JourneyInfo → ℕ
  | .s _ _ _ _ _ p => p
  | .b _ _ _ p => p

/-- No information: not valid. -/
structure Journey where
  totalDuration : ℕ := 65535
  info : Option JourneyInfo := none
  deriving DecidableEq, Repr

/-- `if (best.total_duration_ > total_duration)`; the total is stored in 16 bits. -/
def improve (total : ℕ) (info : JourneyInfo) (best : Journey) : Journey :=
  if best.totalDuration > total then ⟨total % 2 ^ 16, some info⟩ else best

structure Station where
  id : String
  name : String
  bikesAvailable : ℕ
  deriving DecidableEq, Repr

structure Provider where
  vehicleType : String
  stations : List Station
  /-- The ids of the free vehicles. -/
  freeBikes : List String
  /-- The stations come from a map. -/
  nodup_ids : (stations.map Station.id).Nodup

/-- A request, with what the searches for vehicles, stations and stops have found for it: the vehicles
    b and the stations sx and sp, as positions in the lists of the provider, and the ids of the
    stops p. -/
structure Query (provider : Provider) where
  maxFootDuration : ℕ
  maxBikeDuration : ℕ
  b : List (Fin provider.freeBikes.length)
  sx : List (Fin provider.stations.length)
  sp : List (Fin provider.stations.length)
  p : List String
  /-- The number of direct targets. -/
  direct : ℕ

/-- The number of targets. -/
def Query.targets {provider : Provider} (q : Query provider) : ℕ := q.p.length + q.direct

/-- What the street routers know about the ways of a forward search, in seconds; `none`: no way. -/
structure ForwardTimes where
  xToB : ℕ → Option ℕ
  bToP : ℕ → ℕ → Option ℕ
  xToSx : ℕ → Option ℕ
  sxToSp : ℕ → ℕ → Option ℕ
  spToP : ℕ → ℕ → Option ℕ

structure BackwardTimes where
  pToB : ℕ → ℕ → Option ℕ
  bToX : ℕ → Option ℕ
  pToSp : ℕ → ℕ → Option ℕ
  spToSx : ℕ → ℕ → Option ℕ
  sxToX : ℕ → Option ℕ

section Loops

variable {provider : Provider} (undefined : Cost → UInt16) (q : Query provider)

/-- `costs->Get(i)` in minutes. -/
def getDuration (costs : List Cost) (i : ℕ) : ℕ := toDuration undefined (costs.getD i .max)

/-- free-float FWD: x --walk--> [b] --bike--> [p] -/
def freeFloatFwd (t : ForwardTimes) (best : List Journey) : List Journey :=
  let xToBCosts := oneToManyResponse q.b.length t.xToB
  let bToPTable := tableResponse q.b.length q.targets t.bToP
  xToBCosts.zipIdx.foldl (fun best (xToBRes, b) =>
    let walk := toDuration undefined xToBRes
    if walk > q.maxFootDuration then best
    else (List.range q.targets).foldl (fun best p =>
      let ride := getDuration undefined bToPTable (b * q.targets + p)
      if ride > q.maxBikeDuration then best
      else best.modify p (improve (bikeReadyTime + walk + ride) (.b walk ride b p))) best) best

/-- station FWD: x --walk--> [sx] --bike--> [sp] --walk--> [p] -/
def stationFwd (t : ForwardTimes) (best : List Journey) : List Journey :=
  let xToSxCosts := oneToManyResponse q.sx.length t.xToSx
  let sxToSpTable := tableResponse q.sx.length q.sp.length t.sxToSp
  let spToPTable := tableResponse q.sp.length q.targets t.spToP
  xToSxCosts.zipIdx.foldl (fun best (xToSxRes, sx) =>
    let firstWalk := toDuration undefined xToSxRes
    if firstWalk > q.maxFootDuration then best
    else (List.range q.sp.length).foldl (fun best sp =>
      let ride := getDuration undefined sxToSpTable (sx * q.sp.length + sp)
      if ride > q.maxBikeDuration then best
      else (List.range q.targets).foldl (fun best p =>
        let secondWalk := getDuration undefined spToPTable (sp * q.targets + p)
        if secondWalk > q.maxFootDuration ∨ firstWalk + secondWalk > q.maxFootDuration then best
        else best.modify p (improve (bikeReadyTime + firstWalk + ride + secondWalk)
          (.s firstWalk ride secondWalk sx sp p))) best) best) best

/-- free-float BWD: [p] --walk--> [b] --bike--> x; the targets are the stops only. -/
def freeFloatBwd (t : BackwardTimes) (best : List Journey) : List Journey :=
  let pToBTable := tableResponse q.targets q.b.length t.pToB
  let bToXCosts := oneToManyResponse q.b.length t.bToX
  bToXCosts.zipIdx.foldl (fun best (bToXRes, b) =>
    let ride := toDuration undefined bToXRes
    if ride > q.maxBikeDuration then best
    else (List.range q.p.length).foldl (fun best p =>
      let walk := getDuration undefined pToBTable (p * q.b.length + b)
      if walk > q.maxFootDuration then best
      else best.modify p (improve (walk + ride) (.b walk ride b p))) best) best

/-- `stations.at(candidates.at(i)).bikes_available_` -/
def bikesAvailable (candidates : List (Fin provider.stations.length)) (i : ℕ) : ℕ :=
  ((candidates[i]?).map fun station => (provider.stations.get station).bikesAvailable).getD 0

/-- station BWD: [p] --walk--> [sp] --bike--> [sx] --walk--> x -/
def stationBwd (t : BackwardTimes) (best : List Journey) : List Journey :=
  let pToSpTable := tableResponse q.targets q.sp.length t.pToSp
  let spToSxTable := tableResponse q.sp.length q.sx.length t.spToSx
  let sxToXCosts := oneToManyResponse q.sx.length t.sxToX
  sxToXCosts.zipIdx.foldl (fun best (sxToXRes, sx) =>
    let secondWalk := toDuration undefined sxToXRes
    if secondWalk > q.maxFootDuration then best
    else (List.range q.sp.length).foldl (fun best sp =>
      if bikesAvailable q.sp sp = 0 then best
      else
        let ride := getDuration undefined spToSxTable (sp * q.sx.length + sx)
        if ride > q.maxBikeDuration then best
        else (List.range q.p.length).foldl (fun best p =>
          let firstWalk := getDuration undefined pToSpTable (p * q.sp.length + sp)
          if firstWalk > q.maxFootDuration ∨ firstWalk + secondWalk > q.maxFootDuration then best
          else best.modify p (improve (bikeReadyTime + firstWalk + ride + secondWalk)
            (.s firstWalk ride secondWalk sx sp p))) best) best) best

/-- `p_best_journeys.resize(p_pos.size())` -/
def noJourneys : List Journey := List.replicate q.targets {}

/-- The requests of a variant are made when it has vehicles or stations. -/
def bestFwd (t : ForwardTimes) : List Journey :=
  let best := if q.b = [] then noJourneys q else freeFloatFwd undefined q t (noJourneys q)
  if q.sx = [] ∨ q.sp = [] then best else stationFwd undefined q t best

/-- Backward the variant with stations also asks for the response of the other one. -/
def bestBwd (t : BackwardTimes) : List Journey :=
  let best := if q.b = [] then noJourneys q else freeFloatBwd undefined q t (noJourneys q)
  if q.b ≠ [] ∧ ¬(q.sp = [] ∨ q.sx = []) then stationBwd undefined q t best else best

end Loops

end Motis.Gbfs
