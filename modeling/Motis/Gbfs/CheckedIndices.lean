import Mathlib.Algebra.GroupWithZero.Nat
import Motis.Gbfs.Response

/-! The loops of a search with checked indices.

    Each read of a table, of the list of the best journeys and of the direct targets is an error if
    its index is not one. The loops never fail: they read and write row by row, up to the number of
    targets or, backward, of stops. -/

namespace Motis.Gbfs

namespace Checked

section Loops

variable {provider : Provider} (undefined : Cost → UInt16) (q : Query provider)

def getDuration (costs : List Cost) (i : ℕ) : Except String ℕ :=
  (vectorAt costs i).map (toDuration undefined)

/-- `p_best_journeys[p]` -/
def modify (best : List Journey) (p : ℕ) (f : Journey → Journey) : Except String (List Journey) :=
  (vectorAt best p).map fun _ => best.modify p f

def freeFloatFwd (t : ForwardTimes) (best : List Journey) : Except String (List Journey) :=
  let xToBCosts := oneToManyResponse q.b.length t.xToB
  let bToPTable := tableResponse q.b.length q.targets t.bToP
  xToBCosts.zipIdx.foldlM (fun best (xToBRes, b) =>
    let walk := toDuration undefined xToBRes
    if walk > q.maxFootDuration then .ok best
    else (List.range q.targets).foldlM (fun best p => do
      let ride ← getDuration undefined bToPTable (b * q.targets + p)
      if ride > q.maxBikeDuration then .ok best
      else modify best p (improve (bikeReadyTime + walk + ride) (.b walk ride b p))) best) best

def stationFwd (t : ForwardTimes) (best : List Journey) : Except String (List Journey) :=
  let xToSxCosts := oneToManyResponse q.sx.length t.xToSx
  let sxToSpTable := tableResponse q.sx.length q.sp.length t.sxToSp
  let spToPTable := tableResponse q.sp.length q.targets t.spToP
  xToSxCosts.zipIdx.foldlM (fun best (xToSxRes, sx) =>
    let firstWalk := toDuration undefined xToSxRes
    if firstWalk > q.maxFootDuration then .ok best
    else (List.range q.sp.length).foldlM (fun best sp => do
      let ride ← getDuration undefined sxToSpTable (sx * q.sp.length + sp)
      if ride > q.maxBikeDuration then .ok best
      else (List.range q.targets).foldlM (fun best p => do
        let secondWalk ← getDuration undefined spToPTable (sp * q.targets + p)
        if secondWalk > q.maxFootDuration ∨ firstWalk + secondWalk > q.maxFootDuration then .ok best
        else modify best p (improve (bikeReadyTime + firstWalk + ride + secondWalk)
          (.s firstWalk ride secondWalk sx sp p))) best) best) best

def freeFloatBwd (t : BackwardTimes) (best : List Journey) : Except String (List Journey) :=
  let pToBTable := tableResponse q.targets q.b.length t.pToB
  let bToXCosts := oneToManyResponse q.b.length t.bToX
  bToXCosts.zipIdx.foldlM (fun best (bToXRes, b) =>
    let ride := toDuration undefined bToXRes
    if ride > q.maxBikeDuration then .ok best
    else (List.range q.p.length).foldlM (fun best p => do
      let walk ← getDuration undefined pToBTable (p * q.b.length + b)
      if walk > q.maxFootDuration then .ok best
      else modify best p (improve (walk + ride) (.b walk ride b p))) best) best

def bikesAvailable (candidates : List (Fin provider.stations.length)) (i : ℕ) : Except String ℕ :=
  (vectorAt candidates i).map fun station => (provider.stations.get station).bikesAvailable

def stationBwd (t : BackwardTimes) (best : List Journey) : Except String (List Journey) :=
  let pToSpTable := tableResponse q.targets q.sp.length t.pToSp
  let spToSxTable := tableResponse q.sp.length q.sx.length t.spToSx
  let sxToXCosts := oneToManyResponse q.sx.length t.sxToX
  sxToXCosts.zipIdx.foldlM (fun best (sxToXRes, sx) =>
    let secondWalk := toDuration undefined sxToXRes
    if secondWalk > q.maxFootDuration then .ok best
    else (List.range q.sp.length).foldlM (fun best sp => do
      let bikes ← bikesAvailable q.sp sp
      if bikes = 0 then .ok best
      else
        let ride ← getDuration undefined spToSxTable (sp * q.sx.length + sx)
        if ride > q.maxBikeDuration then .ok best
        else (List.range q.p.length).foldlM (fun best p => do
          let firstWalk ← getDuration undefined pToSpTable (p * q.sp.length + sp)
          if firstWalk > q.maxFootDuration ∨ firstWalk + secondWalk > q.maxFootDuration then
            .ok best
          else modify best p (improve (bikeReadyTime + firstWalk + ride + secondWalk)
            (.s firstWalk ride secondWalk sx sp p))) best) best) best

def bestJourneys : Search → Except String (List Journey)
  | .forward t => do
    let best ← (if q.b = [] then .ok (noJourneys q) else freeFloatFwd undefined q t (noJourneys q))
    if q.sx = [] ∨ q.sp = [] then .ok best else stationFwd undefined q t best
  | .backward t => do
    let best ← (if q.b = [] then .ok (noJourneys q) else freeFloatBwd undefined q t (noJourneys q))
    if q.b ≠ [] ∧ ¬(q.sp = [] ∨ q.sx = []) then stationBwd undefined q t best else .ok best

/-- `direct->Get(p.size() - p_)` reads a direct target if the difference does not wrap. -/
def target (p : ℕ) : Except String Target :=
  match q.p[p]? with
  | some id => .ok (.station id)
  | none =>
    if p ≤ q.p.length ∧ q.p.length - p < q.direct then .ok (.direct (q.p.length - p))
    else .error "out_of_range"

def routeInfo (dir : SearchDir) (totalDuration : ℕ) (info : JourneyInfo) :
    Except String RouteInfo := do
  let p ← target q info.p
  let r ← Gbfs.routeInfo q dir totalDuration info
  return { r with p }

/-- `route`, where an index that leaves its bounds is an error. -/
def route (s : Search) : Except String (List RouteInfo) :=
  if ¬(provider.vehicleType = "car" ∨ provider.vehicleType = "bike") then
    .error ("unsupported vehicle type " ++ provider.vehicleType)
  else if q.targets = 0 then .ok []
  else if q.b = [] ∧ (q.sp = [] ∨ q.sx = []) then .ok []
  else do
    let best ← bestJourneys undefined q s
    (validJourneys best).mapM fun (total, info) => routeInfo q s.dir total info

end Loops

/-! ### No loop leaves its bounds -/

section InBounds

variable {provider : Provider} {undefined : Cost → UInt16} {q : Query provider}

theorem getDuration_table {n m : ℕ} (f : ℕ → ℕ → Option ℕ) {i j : ℕ} (hi : i < n) (hj : j < m) :
    getDuration undefined (tableResponse n m f) (i * m + j) =
      .ok (Gbfs.getDuration undefined (tableResponse n m f) (i * m + j)) := by
  have hentry := RowMajor.getElem?_rowMajor (fun i j => tableCost (f i j)) hi hj
  rw [Gbfs.getDuration_table f hi hj, getDuration, vectorAt, tableResponse, hentry]
  rfl

theorem bikesAvailable_eq {candidates : List (Fin provider.stations.length)} {i : ℕ}
    (h : i < candidates.length) :
    bikesAvailable candidates i = .ok (Gbfs.bikesAvailable candidates i) := by
  rw [bikesAvailable, vectorAt_ok h, Gbfs.bikesAvailable, List.getElem?_eq_getElem h]
  rfl

/-- A checked computation gives what the unchecked one does, and keeps a best for each target. -/
def Runs (n : ℕ) (x : Except String (List Journey)) (best : List Journey) : Prop :=
  x = .ok best ∧ best.length = n

theorem runs_modify {best : List Journey} {p : ℕ} (f : Journey → Journey) (hp : p < best.length) :
    Runs best.length (modify best p f) (best.modify p f) := by
  refine ⟨?_, List.length_modify ..⟩
  rw [modify, vectorAt_ok hp]
  rfl

theorem runs_ite {n : ℕ} {c : Prop} [Decidable c] {x y : Except String (List Journey)}
    {best rest : List Journey} (hx : Runs n x best) (hy : Runs n y rest) :
    Runs n (if c then x else y) (if c then best else rest) := by
  split
  · exact hx
  · exact hy

/-- The check of a limit. -/
theorem runs_skip {n : ℕ} {skip : Prop} [Decidable skip] {best rest : List Journey}
    {x : Except String (List Journey)} (hbest : best.length = n) (h : Runs n x rest) :
    Runs n (if skip then .ok best else x) (if skip then best else rest) :=
  runs_ite ⟨rfl, hbest⟩ h

theorem runs_loop {α : Type} {n : ℕ} {f : List Journey → α → Except String (List Journey)}
    {g : List Journey → α → List Journey} {l : List α} {best : List Journey}
    (hbest : best.length = n) (h : ∀ a ∈ l, ∀ best : List Journey, best.length = n → Runs n (f best a) (g best a)) :
    Runs n (l.foldlM f best) (l.foldl g best) :=
  Fallible.foldlM_eq_ok (fun best : List Journey => best.length = n) h hbest

theorem runs_freeFloatFwd (t : ForwardTimes) {best : List Journey}
    (hbest : best.length = q.targets) :
    Runs q.targets (freeFloatFwd undefined q t best) (Gbfs.freeFloatFwd undefined q t best) := by
  rw [freeFloatFwd, Gbfs.freeFloatFwd, zipIdx_oneToMany]
  refine runs_loop hbest fun a ha best hbest => runs_skip hbest ?_
  obtain ⟨b, hb, rfl⟩ := List.mem_map.mp ha
  refine runs_loop hbest fun p hp best hbest => ?_
  rw [getDuration_table _ (List.mem_range.mp hb) (List.mem_range.mp hp)]
  exact runs_skip hbest (hbest ▸ runs_modify _ (hbest ▸ List.mem_range.mp hp))

theorem runs_stationFwd (t : ForwardTimes) {best : List Journey}
    (hbest : best.length = q.targets) :
    Runs q.targets (stationFwd undefined q t best) (Gbfs.stationFwd undefined q t best) := by
  rw [stationFwd, Gbfs.stationFwd, zipIdx_oneToMany]
  refine runs_loop hbest fun a ha best hbest => runs_skip hbest ?_
  obtain ⟨sx, hsx, rfl⟩ := List.mem_map.mp ha
  refine runs_loop hbest fun sp hsp best hbest => ?_
  rw [getDuration_table _ (List.mem_range.mp hsx) (List.mem_range.mp hsp)]
  refine runs_skip hbest (runs_loop hbest fun p hp best hbest => ?_)
  rw [getDuration_table _ (List.mem_range.mp hsp) (List.mem_range.mp hp)]
  exact runs_skip hbest (hbest ▸ runs_modify _ (hbest ▸ List.mem_range.mp hp))

/-- Backward, the loops over the stops stay within the tables of all targets. -/
theorem stop_lt_targets {p : ℕ} (hp : p ∈ List.range q.p.length) : p < q.targets :=
  Nat.lt_add_right _ (List.mem_range.mp hp)

theorem runs_freeFloatBwd (t : BackwardTimes) {best : List Journey}
    (hbest : best.length = q.targets) :
    Runs q.targets (freeFloatBwd undefined q t best) (Gbfs.freeFloatBwd undefined q t best) := by
  rw [freeFloatBwd, Gbfs.freeFloatBwd, zipIdx_oneToMany]
  refine runs_loop hbest fun a ha best hbest => runs_skip hbest ?_
  obtain ⟨b, hb, rfl⟩ := List.mem_map.mp ha
  refine runs_loop hbest fun p hp best hbest => ?_
  rw [getDuration_table _ (stop_lt_targets hp) (List.mem_range.mp hb)]
  exact runs_skip hbest (hbest ▸ runs_modify _ (hbest ▸ stop_lt_targets hp))

theorem runs_stationBwd (t : BackwardTimes) {best : List Journey}
    (hbest : best.length = q.targets) :
    Runs q.targets (stationBwd undefined q t best) (Gbfs.stationBwd undefined q t best) := by
  rw [stationBwd, Gbfs.stationBwd, zipIdx_oneToMany]
  refine runs_loop hbest fun a ha best hbest => runs_skip hbest ?_
  obtain ⟨sx, hsx, rfl⟩ := List.mem_map.mp ha
  refine runs_loop hbest fun sp hsp best hbest => ?_
  rw [bikesAvailable_eq (List.mem_range.mp hsp)]
  refine runs_skip hbest ?_
  rw [getDuration_table _ (List.mem_range.mp hsp) (List.mem_range.mp hsx)]
  refine runs_skip hbest (runs_loop hbest fun p hp best hbest => ?_)
  rw [getDuration_table _ (stop_lt_targets hp) (List.mem_range.mp hsp)]
  exact runs_skip hbest (hbest ▸ runs_modify _ (hbest ▸ stop_lt_targets hp))

/-- The loops never leave their bounds. -/
theorem bestJourneys_ok (s : Search) :
    bestJourneys undefined q s = .ok (Gbfs.bestJourneys undefined q s) := by
  have hnone : (noJourneys q).length = q.targets := List.length_replicate
  cases s with
  | forward t =>
    have hrun : Runs q.targets (freeFloatFwd undefined q t (noJourneys q)) _ :=
      runs_freeFloatFwd t hnone
    obtain ⟨hfree, hlength⟩ := runs_ite (c := q.b = []) ⟨rfl, hnone⟩ hrun
    rw [bestJourneys, hfree]
    exact (runs_skip hlength (runs_stationFwd t hlength)).1
  | backward t =>
    have hrun : Runs q.targets (freeFloatBwd undefined q t (noJourneys q)) _ :=
      runs_freeFloatBwd t hnone
    obtain ⟨hfree, hlength⟩ := runs_ite (c := q.b = []) ⟨rfl, hnone⟩ hrun
    rw [bestJourneys, hfree]
    exact (runs_ite (runs_stationBwd t hlength) ⟨rfl, hlength⟩).1

theorem route_eq (s : Search)
    (htype : provider.vehicleType = "car" ∨ provider.vehicleType = "bike") :
    route undefined q s = (validJourneys (Gbfs.bestJourneys undefined q s)).mapM
      fun (total, info) => routeInfo q s.dir total info := by
  rw [route, if_neg (not_not.mpr htype), bestJourneys_ok]
  split
  · rename_i htargets
    rw [validJourneys_nil fun p hp => by omega]
    rfl
  · split
    · rename_i hplaces
      rw [validJourneys_nil fun p _ => candidates_nil hplaces p]
      rfl
    · rfl

end InBounds

end Checked

end Motis.Gbfs
