import Motis.Lib.Runs
import Motis.Ui.ConnectionManager

/-! The trips of the detail view.

    A filter asks for its trips, and an answer is taken when no request was sent after it. New walks
    of the filter show the details once more, with the trips that are there:

        filter A ──▶ trips A      filter B ──▶ …          trips B
        ─────────────────────▶ A ─────────────┬──────────▶ B
                                        walks of B: shown with A -/

namespace Motis.Ui.DetailView
open Runs ConnectionManager

/-! ### The map -/

structure DetailWalk where
  walk : Walk
  coordinates : Coordinates
  deriving DecidableEq, Repr

/-- The interchange stations are only drawn. -/
structure Filter where
  trains : List Train
  walks : List DetailWalk
  deriving DecidableEq, Repr

/-- The content of a response, with the trips that were asked for. -/
structure Trips where
  trips : List TripId
  data : TripsContent
  deriving DecidableEq, Repr

/-- A request that is not answered; the one for all trains comes from a change of the map. -/
inductive Request where
  | trips (callId : ℕ) (trips : List TripId)
  | trains (callId : ℕ)
  deriving DecidableEq

structure Main where
  detailFilter : Option Filter := none
  fullData : Option TripsContent := none
  detailTrips : Option Trips := none
  showingDetailData : Bool := false
  /-- The timer for the next request is running. -/
  tripsUpdateTimeout : Bool := false
  lastTrainsRequest : Option ℕ := none
  lastTrainsCount : ℕ := 0
  lastTripsRequest : Option ℕ := none
  lastCallId : ℕ := 0
  inFlight : List Request := []
  /-- What `showDetailData` has shown. -/
  shown : List (Option Filter × Option Trips) := []

def isSameStation (a b : Station) : Bool := a.id = b.id && a.lat = b.lat && a.lng = b.lng

def isSameWalk (a b : Walk) : Bool :=
  isSameStation a.departureStation b.departureStation &&
    isSameStation a.arrivalStation b.arrivalStation

/-- The trips that a filter asks for. -/
def Filter.trips (filter : Filter) : List TripId := filter.trains.map (·.trip)

/-- The first walk of the filter that is the same gets the new way. -/
def Filter.updateWalk (filter : Filter) (walk : DetailWalk) : Filter :=
  match filter.walks.findIdx? fun w => isSameWalk w.walk walk.walk with
  | some i =>
    { filter with
      walks := filter.walks.modify i fun w =>
        { w with
          walk := { w.walk with polyline := walk.walk.polyline }
          coordinates := walk.coordinates } }
  | none => filter

/-- One of the walks is a walk of the filter. -/
def Filter.updated (filter : Filter) (walks : List DetailWalk) : Bool :=
  walks.any fun walk => filter.walks.any fun w => isSameWalk w.walk walk.walk

namespace Main

variable (m : Main)

def showFullData : Main := { m with showingDetailData := false }

def showDetailData : Main :=
  { m with
    showingDetailData := true
    shown := m.shown ++ [(m.detailFilter, m.detailTrips)] }

def sendTripsRequest : Main :=
  let m := { m with tripsUpdateTimeout := false }
  match m.detailFilter with
  | some filter =>
    let callId := m.lastCallId + 1
    { m with
      tripsUpdateTimeout := true
      lastCallId := callId
      lastTripsRequest := some callId
      inFlight := m.inFlight ++ [.trips callId filter.trips] }
  | none => m

def sendTrainsRequest : Main :=
  let callId := m.lastCallId + 1
  { m with
    lastCallId := callId
    lastTrainsRequest := some callId
    inFlight := m.inFlight ++ [.trains callId] }

def setDetailFilter (filter : Option Filter) : Main :=
  let m := { m with detailFilter := filter }
  match m.detailFilter with
  | none => { m with detailTrips := none }.showFullData
  | some _ => m.sendTripsRequest

def setDetailWalks (walks : List DetailWalk) : Main :=
  match m.detailFilter with
  | none => m
  | some filter =>
    let updated := filter.updated walks
    let m := { m with detailFilter := some (walks.foldl Filter.updateWalk filter) }
    if updated && m.showingDetailData then m.showDetailData else m

def tripsReceived (callId : ℕ) (trips : Trips) : Main :=
  if some callId ≠ m.lastTripsRequest then m
  else
    let m := { m with detailTrips := some trips }
    if m.detailFilter.isSome then m.showDetailData else m

def trainsReceived (callId : ℕ) (data : TripsContent) : Main :=
  if some callId ≠ m.lastTrainsRequest then m
  else
    let m := { m with lastTrainsCount := data.trains.length, fullData := some data }
    if m.detailFilter.isNone then m.showFullData else m

end Main

/-! ### Runs -/

inductive MainEvent where
  | setDetailFilter (filter : Option Filter)
  | setDetailWalks (walks : List DetailWalk)
  | tripsUpdate
  | sendTrainsRequest
  | tripsReceived (callId : ℕ) (trips : Trips)
  | trainsReceived (callId : ℕ) (data : TripsContent)
  | failed (request : Request)
  /-- A request of another module. -/
  | sendRequest

namespace Main

variable (m : Main)

def answered (request : Request) : Main := { m with inFlight := m.inFlight.erase request }

def step : MainEvent → Main
  | .setDetailFilter filter => m.setDetailFilter filter
  | .setDetailWalks walks => m.setDetailWalks walks
  | .tripsUpdate => m.sendTripsRequest
  | .sendTrainsRequest => m.sendTrainsRequest
  | .tripsReceived callId trips =>
    (m.answered (.trips callId trips.trips)).tripsReceived callId trips
  | .trainsReceived callId data => (m.answered (.trains callId)).trainsReceived callId data
  | .failed request => m.answered request
  | .sendRequest => { m with lastCallId := m.lastCallId + 1 }

def Enabled : MainEvent → Prop
  | .tripsUpdate => m.tripsUpdateTimeout = true
  | .tripsReceived callId trips => .trips callId trips.trips ∈ m.inFlight
  | .trainsReceived callId _ => .trains callId ∈ m.inFlight
  | .failed request => request ∈ m.inFlight
  | _ => True

/-- New walks of the filter come while the details are not shown, or after an answer to a request
    for the trips of the filter. -/
def Safe : MainEvent → Prop
  | .setDetailWalks walks => ∀ filter, m.detailFilter = some filter →
      filter.updated walks = true → m.showingDetailData = true →
        ∃ trips, m.detailTrips = some trips ∧ trips.trips = filter.trips
  | _ => True

end Main

def main : System Main MainEvent where
  enabled := Main.Enabled
  step := Main.step

instance (m : Main) (e : MainEvent) : Decidable (main.enabled m e) :=
  match e with
  | .tripsUpdate => inferInstanceAs (Decidable (_ = _))
  | .tripsReceived .. | .trainsReceived .. | .failed _ =>
    inferInstanceAs (Decidable (_ ∈ m.inFlight))
  | .setDetailFilter _ | .setDetailWalks _ | .sendTrainsRequest | .sendRequest => .isTrue trivial

/-! ### What is shown -/

/-- The trips of the filter were asked for. -/
def Fitting (shown : Option Filter × Option Trips) : Prop :=
  ∃ filter trips, shown = (some filter, some trips) ∧ trips.trips = filter.trips

structure Main.Current (m : Main) : Prop where
  shown : ∀ s ∈ m.shown, Fitting s
  full : m.detailFilter = none → m.showingDetailData = false

namespace Main

/-- The last request asks for the trips of the filter. -/
def InFlight (m : Main) : Prop :=
  ∀ callId trips, .trips callId trips ∈ m.inFlight → callId ≤ m.lastCallId ∧
    ∀ filter, m.detailFilter = some filter → m.lastTripsRequest = some callId →
      trips = filter.trips

structure Sound (m : Main) : Prop extends Current m where
  inFlight : m.InFlight

variable {m : Main}

theorem trips_updateWalk (filter : Filter) (walk : DetailWalk) :
    (filter.updateWalk walk).trips = filter.trips := by
  rw [Filter.updateWalk]
  split <;> rfl

theorem trips_updateWalks (filter : Filter) (walks : List DetailWalk) :
    (walks.foldl Filter.updateWalk filter).trips = filter.trips := by
  induction walks generalizing filter with
  | nil => rfl
  | cons walk walks ih => rw [List.foldl_cons, ih, trips_updateWalk]

theorem sendTripsRequest_eq (m : Main) : ∃ timeout lastCallId lastTripsRequest inFlight,
    m.sendTripsRequest = { m with
      tripsUpdateTimeout := timeout, lastCallId, lastTripsRequest, inFlight } := by
  cases hfilter : m.detailFilter with
  | none =>
    refine ⟨false, m.lastCallId, m.lastTripsRequest, m.inFlight, ?_⟩
    simp only [Main.sendTripsRequest, hfilter]
  | some filter =>
    refine ⟨true, m.lastCallId + 1, some (m.lastCallId + 1),
      m.inFlight ++ [.trips (m.lastCallId + 1) filter.trips], ?_⟩
    simp only [Main.sendTripsRequest, hfilter]

/-- The new request is the last one, and it asks for the trips of the filter. -/
theorem inFlight_sendTripsRequest
    (h : ∀ callId trips, .trips callId trips ∈ m.inFlight → callId ≤ m.lastCallId) :
    m.sendTripsRequest.InFlight := by
  intro callId trips hmem
  cases hfilter : m.detailFilter with
  | none =>
    have heq : m.sendTripsRequest = { m with tripsUpdateTimeout := false } := by
      simp only [Main.sendTripsRequest, hfilter]
    rw [heq] at hmem ⊢
    refine ⟨h callId trips hmem, fun filter hsome => ?_⟩
    exact absurd (hfilter.symm.trans hsome) (Option.some_ne_none filter).symm
  | some filter =>
    have heq : m.sendTripsRequest = { m with
        tripsUpdateTimeout := true
        lastCallId := m.lastCallId + 1
        lastTripsRequest := some (m.lastCallId + 1)
        inFlight := m.inFlight ++ [.trips (m.lastCallId + 1) filter.trips] } := by
      simp only [Main.sendTripsRequest, hfilter]
    rw [heq] at hmem ⊢
    rcases List.mem_append.mp hmem with hmem | hmem
    · have hle := h callId trips hmem
      refine ⟨hle.trans (Nat.le_succ _), fun _ _ hlast => ?_⟩
      have hlast : m.lastCallId + 1 = callId := Option.some.inj hlast
      omega
    · obtain ⟨rfl, rfl⟩ := Request.trips.inj (List.mem_singleton.mp hmem)
      refine ⟨le_refl _, fun filter' hfilter' _ => ?_⟩
      obtain rfl := Option.some.inj (hfilter.symm.trans hfilter')
      rfl

theorem Sound.sendTripsRequest (h : m.Sound) : m.sendTripsRequest.Sound := by
  have hinFlight : m.sendTripsRequest.InFlight :=
    inFlight_sendTripsRequest fun callId trips hmem => (h.inFlight callId trips hmem).1
  obtain ⟨timeout, lastCallId, lastTripsRequest, inFlight, heq⟩ := sendTripsRequest_eq m
  rw [heq] at hinFlight ⊢
  exact ⟨⟨h.shown, h.full⟩, hinFlight⟩

theorem Sound.setDetailFilter (h : m.Sound) (filter : Option Filter) :
    (m.setDetailFilter filter).Sound := by
  cases filter with
  | none =>
    refine ⟨⟨h.shown, fun _ => rfl⟩, fun callId trips hmem => ?_⟩
    exact ⟨(h.inFlight callId trips hmem).1, fun filter hsome => by cases hsome⟩
  | some filter =>
    let m' : Main := { m with detailFilter := some filter }
    have hinFlight : m'.sendTripsRequest.InFlight :=
      inFlight_sendTripsRequest fun callId trips hmem => (h.inFlight callId trips hmem).1
    have hset : m.setDetailFilter (some filter) = m'.sendTripsRequest := rfl
    obtain ⟨timeout, lastCallId, lastTripsRequest, inFlight, heq⟩ := sendTripsRequest_eq m'
    rw [hset]
    rw [heq] at hinFlight ⊢
    exact ⟨⟨h.shown, fun hnone => by cases hnone⟩, hinFlight⟩

theorem Sound.answered (h : m.Sound) (request : Request) : (m.answered request).Sound :=
  ⟨⟨h.shown, h.full⟩,
    fun callId trips hmem => h.inFlight callId trips (List.mem_of_mem_erase hmem)⟩

/-- Showing the details needs a filter and an answer for it. -/
theorem Sound.showDetailData (h : m.Sound) (hfitting : Fitting (m.detailFilter, m.detailTrips)) :
    m.showDetailData.Sound := by
  refine ⟨⟨fun s hs => ?_, fun hnone => ?_⟩, h.inFlight⟩
  · rcases List.mem_append.mp hs with hs | hs
    · exact h.shown s hs
    · obtain rfl := List.mem_singleton.mp hs
      exact hfitting
  · obtain ⟨filter, trips, heq, -⟩ := hfitting
    have hsome : m.detailFilter = some filter := (Prod.mk.inj heq).1
    exact absurd (hsome.symm.trans hnone) (Option.some_ne_none filter)

theorem Sound.setDetailWalks (h : m.Sound) {walks : List DetailWalk}
    (hsafe : m.Safe (.setDetailWalks walks)) : (m.setDetailWalks walks).Sound := by
  cases hfilter : m.detailFilter with
  | none =>
    have heq : m.setDetailWalks walks = m := by simp only [Main.setDetailWalks, hfilter]
    rwa [heq]
  | some filter =>
    let m' : Main := { m with detailFilter := some (walks.foldl Filter.updateWalk filter) }
    have heq : m.setDetailWalks walks =
        if filter.updated walks && m.showingDetailData then m'.showDetailData else m' := by
      simp only [Main.setDetailWalks, hfilter]
      rfl
    have htrips : (walks.foldl Filter.updateWalk filter).trips = filter.trips :=
      trips_updateWalks filter walks
    have hm' : m'.Sound := by
      refine ⟨⟨h.shown, fun hnone => by cases hnone⟩, fun callId trips hmem => ?_⟩
      obtain ⟨hid, hlast⟩ := h.inFlight callId trips hmem
      refine ⟨hid, fun filter' hfilter' hcall => ?_⟩
      obtain rfl := Option.some.inj hfilter'
      exact (hlast filter hfilter hcall).trans htrips.symm
    rw [heq]
    split
    · rename_i hshow
      obtain ⟨hupdated, hshowing⟩ := Bool.and_eq_true_iff.mp hshow
      obtain ⟨trips, hsome, hfit⟩ := hsafe filter hfilter hupdated hshowing
      refine hm'.showDetailData ⟨_, trips, ?_, hfit.trans htrips.symm⟩
      rw [← hsome]
    · exact hm'

theorem Sound.tripsReceived (h : m.Sound) {callId : ℕ} {trips : Trips}
    (hsent : .trips callId trips.trips ∈ m.inFlight) :
    ((m.answered (.trips callId trips.trips)).tripsReceived callId trips).Sound := by
  have hanswered := h.answered (.trips callId trips.trips)
  rw [Main.tripsReceived]
  split
  · exact hanswered
  · rename_i hlast
    have hlast : m.lastTripsRequest = some callId := (not_not.mp hlast).symm
    have hstored : Sound { m.answered (.trips callId trips.trips) with
        detailTrips := some trips } :=
      ⟨⟨h.shown, h.full⟩, hanswered.inFlight⟩
    dsimp only
    split
    · rename_i hsome
      obtain ⟨filter, hfilter⟩ := Option.isSome_iff_exists.mp hsome
      have hfilter : m.detailFilter = some filter := hfilter
      refine hstored.showDetailData ⟨filter, trips, ?_, ?_⟩
      · exact Prod.ext hfilter rfl
      · exact (h.inFlight callId trips.trips hsent).2 filter hfilter hlast
    · exact hstored

theorem Sound.trainsReceived (h : m.Sound) (callId : ℕ) (data : TripsContent) :
    (m.trainsReceived callId data).Sound := by
  rw [Main.trainsReceived]
  split
  · exact h
  · dsimp only
    split
    · exact ⟨⟨h.shown, fun _ => rfl⟩, h.inFlight⟩
    · exact ⟨⟨h.shown, h.full⟩, h.inFlight⟩

theorem Sound.step (h : m.Sound) {e : MainEvent} (henabled : m.Enabled e) (hsafe : m.Safe e) :
    (m.step e).Sound := by
  cases e with
  | setDetailFilter filter => exact h.setDetailFilter filter
  | setDetailWalks walks => exact h.setDetailWalks hsafe
  | tripsUpdate => exact h.sendTripsRequest
  | sendTrainsRequest =>
    refine ⟨⟨h.shown, h.full⟩, fun callId trips hmem => ?_⟩
    rcases List.mem_append.mp hmem with hmem | hmem
    · obtain ⟨hid, hlast⟩ := h.inFlight callId trips hmem
      exact ⟨hid.trans (Nat.le_succ _), hlast⟩
    · cases List.mem_singleton.mp hmem
  | tripsReceived callId trips => exact h.tripsReceived henabled
  | trainsReceived callId data => exact (h.answered _).trainsReceived callId data
  | failed request => exact h.answered request
  | sendRequest =>
    refine ⟨⟨h.shown, h.full⟩, fun callId trips hmem => ?_⟩
    obtain ⟨hid, hlast⟩ := h.inFlight callId trips hmem
    exact ⟨hid.trans (Nat.le_succ _), hlast⟩

theorem sound_init : Sound {} where
  shown _ hs := absurd hs List.not_mem_nil
  full _ := rfl
  inFlight _ _ hmem := absurd hmem List.not_mem_nil

/-- What new walks show is what the view holds. -/
theorem safe_of_current {e : MainEvent} (h : (m.step e).Current) : m.Safe e := by
  cases e with
  | setDetailWalks walks =>
    intro filter hfilter hupdated hshowing
    have hshown : (some (walks.foldl Filter.updateWalk filter), m.detailTrips) ∈
        (m.setDetailWalks walks).shown := by
      simp only [Main.setDetailWalks, hfilter, hupdated, hshowing, Bool.and_true, if_true]
      exact List.mem_append_right _ (List.mem_singleton_self _)
    obtain ⟨filter', trips, heq, htrips⟩ := h.shown _ hshown
    obtain ⟨hfilter', hsome⟩ := Prod.mk.inj heq
    obtain rfl := Option.some.inj hfilter'
    exact ⟨trips, hsome, htrips.trans (trips_updateWalks filter walks)⟩
  | _ => trivial

end Main

/-- Always the details are shown with a filter and an answer for its trips, and not without a
    filter, exactly when new walks come to shown details only after such an answer. -/
theorem always_fitting_iff {es : List MainEvent} (hrun : Feasible main {} es) :
    Always main Main.Current {} es ↔ Each main Main.Safe {} es :=
  always_iff_each (fun _ _ h henabled hsafe => Main.Sound.step h henabled hsafe)
    (fun _ h => h.toCurrent) (fun _ _ _ _ h => Main.safe_of_current h) Main.sound_init hrun

/-! ### Two filters -/

def ic2112 : TripId := ⟨"8000105", 2112, 7200, "8000068", 8400, ""⟩

def ice572 : TripId := ⟨"8000105", 572, 9000, "8000068", 9900, ""⟩

def platformWalk : DetailWalk :=
  ⟨⟨⟨"8000068", "Darmstadt Hbf", 1, 1⟩, ⟨"end", "END", 0, 0⟩, "foot", 5, 0, none⟩, []⟩

def ic2112Filter : Filter := ⟨[⟨[⟨"8000105", "8000068"⟩], ic2112⟩], []⟩

def ice572Filter : Filter := ⟨[⟨[⟨"8000105", "8000068"⟩], ice572⟩], [platformWalk]⟩

theorem always_fitting_iff_oneFilter :
    Always main Main.Current {} [.setDetailFilter (some ic2112Filter),
      .tripsReceived 1 ⟨[ic2112], ⟨[], []⟩⟩, .setDetailFilter none] ↔
    Each main Main.Safe {} [.setDetailFilter (some ic2112Filter),
      .tripsReceived 1 ⟨[ic2112], ⟨[], []⟩⟩, .setDetailFilter none] :=
  always_fitting_iff ⟨trivial, by decide, trivial, trivial⟩

/-- The walk of the second filter comes before its trips, and those of the first are shown. -/
theorem not_current_twoFilters : ¬∀ es : List MainEvent, Feasible main {} es →
    Always main Main.Current {} es := by
  intro h
  let es : List MainEvent := [.setDetailFilter (some ic2112Filter),
    .tripsReceived 1 ⟨[ic2112], ⟨[], []⟩⟩, .setDetailFilter (some ice572Filter),
    .setDetailWalks [platformWalk]]
  have hrun : Feasible main {} es := ⟨trivial, by decide, trivial, trivial, trivial⟩
  have hshown : (some ice572Filter, some ⟨[ic2112], ⟨[], []⟩⟩) ∈ (exec main {} es).shown :=
    List.mem_append_right _ (List.mem_singleton_self _)
  obtain ⟨filter, trips, heq, htrips⟩ := (h es hrun).last.shown _ hshown
  obtain ⟨hfilter, hsome⟩ := Prod.mk.inj heq
  obtain rfl := Option.some.inj hfilter
  obtain rfl := Option.some.inj hsome
  exact absurd htrips (by decide)

end Motis.Ui.DetailView
