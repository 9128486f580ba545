import Motis.Lib.Runs
import Motis.Ui.StationEvents

/-! Paging of the departures and arrivals.

    An extension asks from the first or the last event of the list on, and the server includes the
    time of a request: the event at this end comes again.

        departures   a   b   c   d           first answer   a b, x
        arrivals             x               append         (c) …, x again

    Only the first answer with events is sure to repeat nothing. It loses nothing when neither kind
    is cut off before the last event of the other. -/

namespace Motis.Ui.StationEvents
open Runs

/-! ### Runs -/

structure Board where
  model : Model
  inFlight : List (SearchAction × RailVizStationRequest)

inductive BoardEvent where
  | setViewType (vt : ViewType)
  | extendInterval (direction : ExtendIntervalType)
  | response (action : SearchAction) (request : RailVizStationRequest)
  | error (action : SearchAction) (request : RailVizStationRequest) (err : String)

namespace Board

variable (tt : Timetable) (s : Board)

def sentBy (cmds : List Cmd) : List (SearchAction × RailVizStationRequest) :=
  cmds.filterMap fun
    | .sendRequest _ action request => some (action, request)
    | _ => none

def receive (msg : Msg) : Board :=
  let (model, cmds) := s.model.update msg
  ⟨model, s.inFlight ++ sentBy cmds⟩

/-- A request in flight is answered by the server. -/
def step : BoardEvent → Board
  | .setViewType vt => s.receive (.setViewType vt)
  | .extendInterval direction => s.receive (.extendInterval direction)
  | .response action request =>
    { s with inFlight := s.inFlight.erase (action, request) }.receive
      (.receiveResponse action request (getStation tt request))
  | .error action request err =>
    { s with inFlight := s.inFlight.erase (action, request) }.receive
      (.receiveError action request err)

/-- Buttons are clicked while they are links. -/
def Enabled : BoardEvent → Prop
  | .setViewType _ => True
  | .extendInterval direction => s.model.clickable direction = true
  | .response action request | .error action request _ => (action, request) ∈ s.inFlight

/-- A widget that has sent its first request. -/
def start (remoteAddress stationId : String) (selectedTime : ℤ) : Board :=
  let (model, cmds) := init remoteAddress stationId selectedTime
  ⟨model, sentBy cmds⟩

end Board

def board (tt : Timetable) : System Board BoardEvent where
  enabled := Board.Enabled
  step := Board.step tt

/-! ### What the list promises -/

def Timetable.eventsOf (tt : Timetable) : EventType → List RailVizEvent
  | .dep => tt.departures
  | .arr => tt.arrivals

def Model.eventsOf (model : Model) : EventType → List RailVizEvent
  | .dep => model.depEvents
  | .arr => model.arrEvents

/-- An event between the earliest and the latest one that is shown. -/
def Between (shown : EventType → List RailVizEvent) (e : RailVizEvent) : Prop :=
  (∃ t, ∃ a ∈ shown t, getScheduleTime a ≤ getScheduleTime e) ∧
    ∃ t, ∃ b ∈ shown t, getScheduleTime e ≤ getScheduleTime b

/-- Nothing is repeated or out of order, and nothing in between is missing. -/
structure Complete (tt : Timetable) (shown : EventType → List RailVizEvent) : Prop where
  nodup : ∀ t, (shown t).Nodup
  sorted : ∀ t, (shown t).Pairwise fun a b => getScheduleTime a ≤ getScheduleTime b
  complete : ∀ t, ∀ e ∈ tt.eventsOf t, Between shown e → e ∈ shown t

/-- Up to any event of the answer, the server has no more events of a kind than it answers with. -/
def Uncut (tt : Timetable) (req : RailVizStationRequest) : Prop :=
  ∀ a ∈ (getStation tt req).events, ∀ t,
    (((tt.eventsOf t).filter req.Asks).filter fun e => req.key e ≤ req.key a).length ≤
      req.eventCount.toNat

/-- Events come only to an empty list, and they are not cut off. -/
def Board.Safe (tt : Timetable) (s : Board) : BoardEvent → Prop
  | .response _ req => (getStation tt req).events = [] ∨
      (∀ t, s.model.eventsOf t = []) ∧ Uncut tt req
  | _ => True

/-! ### Sorted events -/

theorem isLE_compareEvents {a b : RailVizEvent} (h : (compareEvents a b).isLE = true) :
    getScheduleTime a ≤ getScheduleTime b := by
  rw [compareEvents] at h
  by_contra hlt
  have hgt : compare (getScheduleTime a) (getScheduleTime b) = .gt :=
    Int.compare_eq_gt.mpr (by omega)
  rw [hgt] at h
  cases h

theorem compareEvents_eq : compareEvents = compareLex (compareOn getScheduleTime)
    (compareOn fun e => codeUnits (getServiceName e)) := by
  funext a b
  rw [compareEvents, compareLex, compareOn, compareOn]
  cases compare (getScheduleTime a) (getScheduleTime b) <;> rfl

instance : Std.TransCmp compareEvents := by
  rw [compareEvents_eq]
  infer_instance

theorem compareEvents_trans (a b c : RailVizEvent) (hab : (compareEvents a b).isLE = true)
    (hbc : (compareEvents b c).isLE = true) : (compareEvents a c).isLE = true :=
  Std.TransCmp.isLE_trans hab hbc

theorem compareEvents_total (a b : RailVizEvent) :
    ((compareEvents a b).isLE || (compareEvents b a).isLE) = true := by
  by_cases h : (compareEvents a b).isLE = true
  · rw [h, Bool.true_or]
  · rw [Std.OrientedCmp.lt_of_not_isLE h]
    exact Bool.or_true _

theorem pairwise_sortEvents (events : List RailVizEvent) :
    (Model.sortEvents events).Pairwise fun a b => getScheduleTime a ≤ getScheduleTime b :=
  (List.pairwise_mergeSort compareEvents_trans compareEvents_total events).imp isLE_compareEvents

theorem perm_sortEvents (events : List RailVizEvent) : (Model.sortEvents events).Perm events :=
  List.mergeSort_perm ..

/-! ### An answer -/

section Answer

variable (tt : Timetable) (req : RailVizStationRequest)

/-- The events of a kind that an answer brings, as they are shown. -/
def answered (t : EventType) : List RailVizEvent :=
  (Model.sortEvents (getStation tt req).events).filter fun e => e.eventType = t

variable {tt req}

theorem eventType_of_mem {t : EventType} {e : RailVizEvent} (h : e ∈ tt.eventsOf t) :
    e.eventType = t := by
  cases t with
  | dep => exact tt.dep_of_mem e h
  | arr => exact tt.arr_of_mem e h

theorem nodup_eventsOf (t : EventType) : (tt.eventsOf t).Nodup := by
  cases t with
  | dep => exact tt.nodup_departures
  | arr => exact tt.nodup_arrivals

theorem mem_first {events : List RailVizEvent} {e : RailVizEvent} (h : e ∈ req.first events) :
    e ∈ events ∧ req.Asks e := by
  simpa using List.mem_filter.mp (FirstBy.mem_of_mem_firstBy h)

theorem mem_getStation {e : RailVizEvent} :
    e ∈ (getStation tt req).events ↔ ∃ t, e ∈ req.first (tt.eventsOf t) := by
  rw [getStation, List.mem_append]
  constructor
  · rintro (h | h)
    · exact ⟨.dep, h⟩
    · exact ⟨.arr, h⟩
  · rintro ⟨_ | _, h⟩
    · exact .inl h
    · exact .inr h

theorem mem_answered {t : EventType} {e : RailVizEvent} :
    e ∈ answered tt req t ↔ e ∈ req.first (tt.eventsOf t) := by
  rw [answered, List.mem_filter, (perm_sortEvents _).mem_iff, mem_getStation, decide_eq_true_eq]
  constructor
  · rintro ⟨⟨t', h⟩, ht⟩
    obtain rfl := (eventType_of_mem (mem_first h).1).symm.trans ht
    exact h
  · intro h
    exact ⟨⟨t, h⟩, eventType_of_mem (mem_first h).1⟩

theorem nodup_first (t : EventType) : (req.first (tt.eventsOf t)).Nodup :=
  FirstBy.nodup_firstBy ((nodup_eventsOf t).filter _)

theorem nodup_answered (t : EventType) : (answered tt req t).Nodup := by
  refine List.Nodup.filter _ ((perm_sortEvents _).nodup_iff.mpr ?_)
  refine List.nodup_append'.mpr ⟨nodup_first .dep, nodup_first .arr, fun e hdep harr => ?_⟩
  have htype := (tt.dep_of_mem e (mem_first hdep).1).symm.trans (tt.arr_of_mem e (mem_first harr).1)
  cases htype

theorem pairwise_answered (t : EventType) :
    (answered tt req t).Pairwise fun a b => getScheduleTime a ≤ getScheduleTime b :=
  (pairwise_sortEvents _).sublist List.filter_sublist

theorem seconds_le {a b : RailVizEvent} (h : getScheduleTime a ≤ getScheduleTime b) :
    seconds a ≤ seconds b := by
  simp only [seconds]
  omega

theorem asks_later (hdir : req.direction ≠ .earlier) (e : RailVizEvent) :
    req.Asks e ↔ req.time ≤ seconds e := by
  rw [RailVizStationRequest.Asks, if_pos hdir]

theorem asks_earlier (hdir : req.direction = .earlier) (e : RailVizEvent) :
    req.Asks e ↔ seconds e ≤ req.time := by
  rw [RailVizStationRequest.Asks, if_neg (not_not.mpr hdir)]

theorem key_later (hdir : req.direction ≠ .earlier) (e : RailVizEvent) : req.key e = seconds e :=
  if_pos hdir

theorem key_earlier (hdir : req.direction = .earlier) (e : RailVizEvent) :
    req.key e = -seconds e :=
  if_neg (not_not.mpr hdir)

/-- What is not cut off is answered up to the last event of the answer. -/
theorem mem_answered_of_le (h : Uncut tt req) {t t' : EventType} {a e : RailVizEvent}
    (ha : a ∈ answered tt req t') (he : e ∈ tt.eventsOf t) (hasks : req.Asks e)
    (hle : req.key e ≤ req.key a) : e ∈ answered tt req t :=
  mem_answered.mpr (FirstBy.mem_firstBy_of_le (h a (mem_getStation.mpr ⟨t', mem_answered.mp ha⟩) t)
    (List.mem_filter.mpr ⟨he, decide_eq_true hasks⟩) hle)

/-- An answer that is not cut off is complete by itself. -/
theorem complete_answered (h : Uncut tt req) : Complete tt (answered tt req) where
  nodup := nodup_answered
  sorted := pairwise_answered
  complete t e he hbetween := by
    obtain ⟨⟨ta, a, ha, hae⟩, tb, b, hb, heb⟩ := hbetween
    have hasks_a : req.Asks a := (mem_first (mem_answered.mp ha)).2
    have hasks_b : req.Asks b := (mem_first (mem_answered.mp hb)).2
    have hae := seconds_le hae
    have heb := seconds_le heb
    by_cases hdir : req.direction = .earlier
    · rw [asks_earlier hdir] at hasks_b
      refine mem_answered_of_le h ha he ((asks_earlier hdir e).mpr (heb.trans hasks_b)) ?_
      rw [key_earlier hdir, key_earlier hdir]
      omega
    · rw [asks_later hdir] at hasks_a
      refine mem_answered_of_le h hb he ((asks_later hdir e).mpr (hasks_a.trans hae)) ?_
      rw [key_later hdir, key_later hdir]
      exact heb

end Answer

/-! ### Runs that repeat nothing -/

section Run

variable {tt : Timetable}

theorem complete_nil : Complete tt fun _ => [] where
  nodup _ := List.nodup_nil
  sorted _ := List.Pairwise.nil
  complete _ _ _ hbetween := by
    obtain ⟨⟨_, a, ha, -⟩, -⟩ := hbetween
    exact absurd ha List.not_mem_nil

/-- What is shown after an answer. -/
theorem eventsOf_handleResponse (model : Model) (action : SearchAction)
    (req : RailVizStationRequest) (t : EventType) :
    (model.handleResponse action (getStation tt req)).eventsOf t = match action with
      | .replaceResults => answered tt req t
      | .prependResults => answered tt req t ++ model.eventsOf t
      | .appendResults => model.eventsOf t ++ answered tt req t := by
  cases action <;> cases t <;> rfl

theorem eventsOf_handleRequestError (model : Model) (action : SearchAction) (err : String) :
    (model.handleRequestError action err).eventsOf = (fun _ => []) ∨
      (model.handleRequestError action err).eventsOf = model.eventsOf := by
  cases action with
  | replaceResults => exact .inl (funext fun t => by cases t <;> rfl)
  | prependResults => exact .inr (funext fun t => by cases t <;> rfl)
  | appendResults => exact .inr (funext fun t => by cases t <;> rfl)

theorem eventsOf_response (s : Board) (action : SearchAction) (req : RailVizStationRequest) :
    (s.step tt (.response action req)).model.eventsOf =
      (s.model.handleResponse action (getStation tt req)).eventsOf := rfl

theorem answered_nil {req : RailVizStationRequest} (h : (getStation tt req).events = [])
    (t : EventType) : answered tt req t = [] := by
  rw [answered, h, Model.sortEvents, List.mergeSort_nil, List.filter_nil]

/-- An answer to an empty list is complete when it is not cut off, and one without events changes
    nothing or leaves nothing. -/
theorem complete_response {s : Board} {action : SearchAction} {req : RailVizStationRequest}
    (h : Complete tt s.model.eventsOf) (hsafe : s.Safe tt (.response action req)) :
    Complete tt (s.step tt (.response action req)).model.eventsOf := by
  rw [eventsOf_response]
  rcases hsafe with hnone | ⟨hempty, huncut⟩
  · cases action with
    | replaceResults =>
      have heq : (s.model.handleResponse .replaceResults (getStation tt req)).eventsOf =
          fun _ => [] := by
        funext t
        rw [eventsOf_handleResponse]
        exact answered_nil hnone t
      rw [heq]
      exact complete_nil
    | prependResults =>
      have heq : (s.model.handleResponse .prependResults (getStation tt req)).eventsOf =
          s.model.eventsOf := by
        funext t
        rw [eventsOf_handleResponse, answered_nil hnone t]
        exact List.nil_append _
      rwa [heq]
    | appendResults =>
      have heq : (s.model.handleResponse .appendResults (getStation tt req)).eventsOf =
          s.model.eventsOf := by
        funext t
        rw [eventsOf_handleResponse, answered_nil hnone t]
        exact List.append_nil _
      rwa [heq]
  · have heq : (s.model.handleResponse action (getStation tt req)).eventsOf = answered tt req := by
      funext t
      rw [eventsOf_handleResponse]
      cases action with
      | replaceResults => rfl
      | prependResults => rw [hempty t, List.append_nil]
      | appendResults => rw [hempty t, List.nil_append]
    rw [heq]
    exact complete_answered huncut

theorem complete_step {s : Board} {e : BoardEvent} (h : Complete tt s.model.eventsOf)
    (hsafe : s.Safe tt e) : Complete tt (s.step tt e).model.eventsOf := by
  cases e with
  | setViewType vt => exact h
  | extendInterval direction => exact h
  | response action req => exact complete_response h hsafe
  | error action req err =>
    have heq : (s.step tt (.error action req err)).model.eventsOf =
        (s.model.handleRequestError action err).eventsOf := rfl
    rw [heq]
    rcases eventsOf_handleRequestError s.model action err with hnil | hsame
    · rw [hnil]
      exact complete_nil
    · rwa [hsame]

/-- The list is complete always in a run where events come only to an empty list and are not cut
    off. -/
theorem always_complete (remoteAddress stationId : String) (selectedTime : ℤ) {es : List BoardEvent}
    (hrun : Feasible (board tt) (.start remoteAddress stationId selectedTime) es)
    (hsafe : Each (board tt) (Board.Safe tt) (.start remoteAddress stationId selectedTime) es) :
    Always (board tt) (fun s => Complete tt s.model.eventsOf)
      (.start remoteAddress stationId selectedTime) es := by
  refine always_of_invariant (fun s e h _ hsafe => complete_step h hsafe) ?_ hrun hsafe
  have heq : (Board.start remoteAddress stationId selectedTime).model.eventsOf = fun _ => [] :=
    funext fun t => by cases t <;> rfl
  rw [heq]
  exact complete_nil

/-- A train, an hour after the beginning of time. -/
def ic2113 : RailVizEvent :=
  ⟨[⟨"ic-2113", "IC 2113"⟩], .dep, ⟨some 3600000, some 3600000, "7", .schedule⟩⟩

def oneTrain : Timetable where
  station := ⟨"8000068", "Darmstadt Hbf", 0, 0⟩
  departures := [ic2113]
  arrivals := []
  nodup_departures := List.nodup_singleton _
  nodup_arrivals := List.nodup_nil
  dep_of_mem e he := by
    obtain rfl := List.mem_singleton.mp he
    rfl
  arr_of_mem e he := absurd he List.not_mem_nil

def firstRequest : RailVizStationRequest := initialStationRequest "8000068" 0

theorem uncut_firstRequest : Uncut oneTrain firstRequest := by
  intro a _ t
  have hlength : (oneTrain.eventsOf t).length ≤ 20 := by cases t <;> decide
  exact (List.length_filter_le ..).trans ((List.length_filter_le ..).trans hlength)

theorem always_complete_oneTrain : Always (board oneTrain)
    (fun s => Complete oneTrain s.model.eventsOf) (.start "" "8000068" 0)
    [.response .replaceResults firstRequest, .setViewType .arrivals] :=
  always_complete "" "8000068" 0 ⟨List.mem_singleton_self _, trivial, trivial⟩
    ⟨.inr ⟨fun t => by cases t <;> rfl, uncut_firstRequest⟩, trivial, trivial⟩

/-! ### Extensions repeat -/

/-- Something is shown, an answer with its first and its last time. -/
structure Shown (tt : Timetable) (model : Model) : Prop where
  answer : ∃ req, model.eventsOf = answered tt req
  minTime : ∃ t, ∃ a ∈ model.eventsOf t, seconds a = model.minTime
  maxTime : ∃ t, ∃ a ∈ model.eventsOf t, seconds a = model.maxTime
  eventCount : 0 < model.request.eventCount

theorem asks_congr {req : RailVizStationRequest} {a b : RailVizEvent} (h : seconds a = seconds b) :
    req.Asks a ↔ req.Asks b := by
  rw [RailVizStationRequest.Asks, RailVizStationRequest.Asks, h]

theorem key_congr {req : RailVizStationRequest} {a b : RailVizEvent} (h : seconds a = seconds b) :
    req.key a = req.key b := by
  rw [RailVizStationRequest.key, RailVizStationRequest.key, h]

theorem key_inj {req : RailVizStationRequest} {a b : RailVizEvent} (h : req.key a = req.key b) :
    seconds a = seconds b := by
  simp only [RailVizStationRequest.key] at h
  split at h
  · exact h
  · omega

theorem filter_asks {req : RailVizStationRequest} {events pre post : List RailVizEvent}
    {f : RailVizEvent} (hevents : events = pre ++ f :: post) (hasks : req.Asks f) :
    events.filter req.Asks = pre.filter req.Asks ++ f :: post.filter req.Asks := by
  have hkeep : decide (req.Asks f) = true := decide_eq_true hasks
  rw [hevents, List.filter_append, List.filter_cons, if_pos hkeep]

/-- Of the events with a time, the first is answered with any other. -/
theorem mem_first_of_first {req : RailVizStationRequest} {events pre post : List RailVizEvent}
    {f a : RailVizEvent} (hnodup : events.Nodup) (hevents : events = pre ++ f :: post)
    (hpre : ∀ c ∈ pre, seconds c ≠ seconds f) (ha : a ∈ req.first events)
    (hf : seconds f = seconds a) : f ∈ req.first events :=
  FirstBy.mem_firstBy_of_first (hnodup.filter _)
    (filter_asks hevents ((asks_congr hf).mpr (mem_first ha).2))
    (fun c hc h => hpre c (List.mem_of_mem_filter hc) (key_inj h)) (key_congr hf.symm) ha

/-- The first event with the time of the request is always answered. -/
theorem mem_first_of_least {req : RailVizStationRequest} {events pre post : List RailVizEvent}
    {f : RailVizEvent} (hnodup : events.Nodup) (hevents : events = pre ++ f :: post)
    (hpre : ∀ c ∈ pre, seconds c ≠ seconds f) (hf : seconds f = req.time)
    (hcount : 0 < req.eventCount) : f ∈ req.first events := by
  have hasks : req.Asks f := by
    by_cases hdir : req.direction = .earlier
    · exact (asks_earlier hdir f).mpr hf.le
    · exact (asks_later hdir f).mpr hf.ge
  refine FirstBy.mem_firstBy_of_least (hnodup.filter _) (filter_asks hevents hasks)
    (fun c hc h => hpre c (List.mem_of_mem_filter hc) (key_inj h)) (fun c hc => ?_) (by omega)
  have hc : req.Asks c := of_decide_eq_true (List.mem_filter.mp hc).2
  by_cases hdir : req.direction = .earlier
  · rw [asks_earlier hdir] at hc
    rw [key_earlier hdir, key_earlier hdir]
    omega
  · rw [asks_later hdir] at hc
    rw [key_later hdir, key_later hdir]
    omega

/-- What is shown at the time of a request comes again. -/
theorem exists_repeated {shown : EventType → List RailVizEvent} {req₀ : RailVizStationRequest}
    (req : RailVizStationRequest) (hshown : shown = answered tt req₀) {t : EventType} {a : RailVizEvent} (ha : a ∈ shown t)
    (htime : seconds a = req.time) (hcount : 0 < req.eventCount) :
    ∃ f ∈ shown t, f ∈ answered tt req t := by
  have ha : a ∈ req₀.first (tt.eventsOf t) := by
    rw [hshown] at ha
    exact mem_answered.mp ha
  obtain ⟨pre, f, post, hevents, hf, hpre⟩ :=
    FirstBy.exists_first seconds (mem_first ha).1
  refine ⟨f, ?_, mem_answered.mpr ?_⟩
  · rw [hshown]
    exact mem_answered.mpr (mem_first_of_first (nodup_eventsOf t) hevents hpre ha hf)
  · exact mem_first_of_least (nodup_eventsOf t) hevents hpre (hf.trans htime) hcount

/-- The action of an extension. -/
def ExtendIntervalType.action : ExtendIntervalType → SearchAction
  | .extendBefore => .prependResults
  | .extendAfter => .appendResults

/-- Every extension of a list with events repeats one of them. -/
theorem not_complete_extended {s : Board} (h : Shown tt s.model) (direction : ExtendIntervalType) :
    ¬Complete tt (s.step tt
      (.response direction.action (s.model.extendInterval direction))).model.eventsOf := by
  intro hcomplete
  obtain ⟨req₀, hshown⟩ := h.answer
  cases direction with
  | extendBefore =>
    obtain ⟨t, a, ha, htime⟩ := h.minTime
    obtain ⟨f, hf, hf'⟩ := exists_repeated (s.model.extendInterval .extendBefore) hshown ha
      htime h.eventCount
    have hnodup := hcomplete.nodup t
    rw [eventsOf_response, eventsOf_handleResponse] at hnodup
    exact (List.nodup_append'.mp hnodup).2.2 hf' hf
  | extendAfter =>
    obtain ⟨t, a, ha, htime⟩ := h.maxTime
    obtain ⟨f, hf, hf'⟩ := exists_repeated (s.model.extendInterval .extendAfter) hshown ha
      htime h.eventCount
    have hnodup := hcomplete.nodup t
    rw [eventsOf_response, eventsOf_handleResponse] at hnodup
    exact (List.nodup_append'.mp hnodup).2.2 hf hf'

/-- An answer with events to an empty list is shown from its first to its last time. -/
theorem shown_response {s : Board} (action : SearchAction) {req : RailVizStationRequest}
    (hempty : ∀ t, s.model.eventsOf t = []) (hmin : s.model.minTime = maxInt)
    (hmax : s.model.maxTime = 0) (hcount : 0 < s.model.request.eventCount)
    (hrange : ∀ e ∈ (getStation tt req).events, 0 ≤ seconds e ∧ seconds e ≤ maxInt)
    (hevents : (getStation tt req).events ≠ []) :
    Shown tt (s.step tt (.response action req)).model := by
  have heq : (s.step tt (.response action req)).model.eventsOf = answered tt req := by
    funext t
    rw [eventsOf_response, eventsOf_handleResponse]
    cases action with
    | replaceResults => rfl
    | prependResults => rw [hempty t, List.append_nil]
    | appendResults => rw [hempty t, List.nil_append]
  have hsorted : Model.sortEvents (getStation tt req).events ≠ [] := fun h =>
    hevents (List.perm_nil.mp (h ▸ (perm_sortEvents _).symm))
  have hmem : ∀ e ∈ Model.sortEvents (getStation tt req).events, e ∈ answered tt req e.eventType ∧
      0 ≤ seconds e ∧ seconds e ≤ maxInt := fun e he =>
    ⟨List.mem_filter.mpr ⟨he, decide_eq_true rfl⟩, hrange e ((perm_sortEvents _).mem_iff.mp he)⟩
  have hminTime : (s.step tt (.response action req)).model.minTime =
      ((Model.sortEvents (getStation tt req).events).head?.map fun e =>
        min s.model.minTime (seconds e)).getD s.model.minTime := by
    cases action <;> rfl
  have hmaxTime : (s.step tt (.response action req)).model.maxTime =
      ((Model.sortEvents (getStation tt req).events).getLast?.map fun e =>
        max s.model.maxTime (seconds e)).getD s.model.maxTime := by
    cases action <;> rfl
  refine ⟨⟨req, heq⟩, ?_, ?_, ?_⟩
  · obtain ⟨ha, -, hle⟩ := hmem _ (List.head_mem hsorted)
    refine ⟨_, _, by rwa [heq], ?_⟩
    rw [hminTime, List.head?_eq_some_head hsorted, Option.map_some, Option.getD_some, hmin,
      min_eq_right hle]
  · obtain ⟨ha, hle, -⟩ := hmem _ (List.getLast_mem hsorted)
    refine ⟨_, _, by rwa [heq], ?_⟩
    rw [hmaxTime, List.getLast?_eq_some_getLast hsorted, Option.map_some, Option.getD_some, hmax,
      max_eq_right hle]
  · cases action <;> exact hcount

theorem shown_extendInterval {s : Board} (h : Shown tt s.model) (direction : ExtendIntervalType) :
    Shown tt (s.step tt (.extendInterval direction)).model :=
  ⟨h.answer, h.minTime, h.maxTime, h.eventCount⟩

end Run

theorem shown_oneTrain : Shown oneTrain ((Board.start "" "8000068" 0).step oneTrain
    (.response .replaceResults firstRequest)).model := by
  have hmem : ∀ e ∈ (getStation oneTrain firstRequest).events, seconds e = 3600 := by
    intro e he
    obtain ⟨t, he⟩ := mem_getStation.mp he
    have he := (mem_first he).1
    cases t with
    | dep =>
      obtain rfl := List.mem_singleton.mp he
      rfl
    | arr => exact absurd he List.not_mem_nil
  refine shown_response _ (fun t => by cases t <;> rfl) rfl rfl (by decide) (fun e he => ?_) ?_
  · rw [hmem e he]
    decide
  · refine List.ne_nil_of_mem (a := ic2113) (mem_getStation.mpr ⟨.dep, ?_⟩)
    exact FirstBy.mem_firstBy_of_le (u := 3600) (by decide) (List.mem_cons_self ..) (by decide)

/-- The train is shown, and comes again with the extension to later times. -/
theorem not_complete_oneTrain : ¬∀ (tt : Timetable) (remoteAddress stationId : String)
    (selectedTime : ℤ) (es : List BoardEvent),
    Feasible (board tt) (.start remoteAddress stationId selectedTime) es →
    Always (board tt) (fun s => Complete tt s.model.eventsOf)
      (.start remoteAddress stationId selectedTime) es := by
  intro h
  let s₁ := (Board.start "" "8000068" 0).step oneTrain (.response .replaceResults firstRequest)
  let s₂ := s₁.step oneTrain (.extendInterval .extendAfter)
  have hrun : Feasible (board oneTrain) (.start "" "8000068" 0)
      [.response .replaceResults firstRequest, .extendInterval .extendAfter,
        .response .appendResults (s₁.model.extendInterval .extendAfter)] :=
    ⟨List.mem_singleton_self _, rfl, List.mem_append_right _ (List.mem_singleton_self _), trivial⟩
  have hlast := (h oneTrain "" "8000068" 0 _ hrun).last
  have hshown : Shown oneTrain s₂.model := shown_extendInterval shown_oneTrain .extendAfter
  exact not_complete_extended hshown .extendAfter hlast

end Motis.Ui.StationEvents
