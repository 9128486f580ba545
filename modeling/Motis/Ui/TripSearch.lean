import Motis.Lib.Runs
import Motis.Ui.Connections
import Motis.Ui.Input

/-! The search for trips by train number.

    Every answer is taken, to whichever request it is, and an error stays:

        search 1 ──▶ error       search 2 ──▶ trips, shown as the error
        search 1, search 2       answer 2, answer 1 ──▶ the trips of search 1 -/

namespace Motis.Ui.TripSearch
open Runs

/-- The fields for the date and the time, trips as they are listed, and the parsing of numbers. -/
structure Fields where
  Calendar : Type
  CalendarMsg : Type
  calendarUpdate : CalendarMsg → Calendar → Calendar
  TimeInput : Type
  TimeInputMsg : Type
  timeUpdate : TimeInputMsg → TimeInput → TimeInput
  /-- `unixTime (combineDateTime date time)` -/
  unixTime : Calendar → TimeInput → ℤ
  Date : Type
  calendarInitDate : Bool → Date → CalendarMsg
  timeInitDate : Bool → Date → TimeInputMsg
  Locale : Type
  setDateConfig : Locale → CalendarMsg
  setValidRange : Option (Date × Date) → CalendarMsg
  Trip : Type
  toInt : String → Option ℤ
  debounce : Debounce

variable {fields : Fields}

structure RailVizTripGuessRequest where
  trainNum : ℤ
  time : ℤ
  guessCount : ℤ
  deriving DecidableEq, Repr

structure Model (fields : Fields) where
  loading : Bool
  remoteAddress : String
  trainNrInput : String
  trainNrWidget : Bool
  date : fields.Calendar
  time : fields.TimeInput
  errorMessage : Option String
  currentRequest : Option RailVizTripGuessRequest
  debounce : fields.debounce.State
  trips : Option (List fields.Trip)

inductive Msg (fields : Fields) where
  | noOp
  | receiveResponse (request : RailVizTripGuessRequest) (trips : List fields.Trip)
  | receiveError (request : RailVizTripGuessRequest) (err : String)
  | setLocale (locale : fields.Locale)
  | setTime (newDate : fields.Date)
  | trainNrInput (str : String)
  | trainNrInputUpdate (msg : InputMsg)
  | dateUpdate (msg : fields.CalendarMsg)
  | timeUpdate (msg : fields.TimeInputMsg)
  | deb (a : fields.debounce.Msg)
  | searchTrips
  | updateScheduleInfo (begin «end» : fields.Date)

inductive Cmd (fields : Fields) where
  | sendRequest (remoteAddress : String) (request : RailVizTripGuessRequest)
  | debounceCmd (msg : Msg fields)
  | debounce (cmd : fields.debounce.Cmd)

/-- The model; the commands ask for the current date. -/
def init (remoteAddress : String) (date : fields.Calendar) (time : fields.TimeInput) :
    Model fields where
  loading := false
  remoteAddress := remoteAddress
  trainNrInput := ""
  trainNrWidget := false
  date := date
  time := time
  errorMessage := none
  currentRequest := none
  debounce := fields.debounce.init
  trips := none

variable (fields) in
def getTrainNr (input : String) : Option ℤ :=
  match fields.toInt input with
  | some nr => if nr ≥ 0 then some nr else none
  | none => none

namespace Model

variable (model : Model fields)

def isCompleteQuery : Bool := (getTrainNr fields model.trainNrInput).isSome

def buildRequest : RailVizTripGuessRequest where
  trainNum := (getTrainNr fields model.trainNrInput).getD 0
  time := fields.unixTime model.date model.time
  guessCount := 20

def checkRequest : Model fields × List (Cmd fields) :=
  let requestChanged := match model.currentRequest with
    | some currentRequest => model.buildRequest != currentRequest
    | none => true
  if model.isCompleteQuery && requestChanged then (model, [.debounceCmd .searchTrips])
  else (model, [])

/-- `DateUpdate` -/
def updateDate (msg : fields.CalendarMsg) : Model fields × List (Cmd fields) :=
  checkRequest { model with date := fields.calendarUpdate msg model.date }

/-- `TimeUpdate` -/
def updateTime (msg : fields.TimeInputMsg) : Model fields × List (Cmd fields) :=
  checkRequest { model with time := fields.timeUpdate msg model.time }

def update : Msg fields → Model fields × List (Cmd fields)
  | .noOp => (model, [])
  | .receiveResponse _ trips => ({ model with trips := some trips, loading := false }, [])
  | .receiveError _ err =>
    ({ model with trips := none, errorMessage := some err, loading := false }, [])
  | .setLocale locale =>
    ({ model with date := fields.calendarUpdate (fields.setDateConfig locale) model.date }, [])
  | .setTime newDate =>
    let (model1, cmds1) := model.updateDate (fields.calendarInitDate true newDate)
    let (model2, cmds2) := model1.updateTime (fields.timeInitDate true newDate)
    (model2, cmds1 ++ cmds2)
  | .trainNrInput str => checkRequest { model with trainNrInput := str }
  | .trainNrInputUpdate msg =>
    ({ model with trainNrWidget := inputUpdate msg model.trainNrWidget }, [])
  | .dateUpdate msg => model.updateDate msg
  | .timeUpdate msg => model.updateTime msg
  | .deb a =>
    let (debounce, cmd) := fields.debounce.update a model.debounce
    ({ model with debounce }, [.debounce cmd])
  | .searchTrips =>
    let request := model.buildRequest
    ({ model with currentRequest := some request, loading := true },
      [.sendRequest model.remoteAddress request])
  | .updateScheduleInfo begin «end» =>
    ({ model with
      date := fields.calendarUpdate (fields.setValidRange (some (begin, «end»))) model.date }, [])

end Model

/-- What is shown below the form. -/
inductive Content (Trip : Type) where
  | loading
  | error (err : String)
  | noResults
  | trips (trips : List Trip)
  | nothing

def tripsContent {Trip : Type} (trips : List Trip) : Content Trip :=
  if trips.isEmpty then .noResults else .trips trips

def Model.tripsView (model : Model fields) : Content fields.Trip :=
  match model.trips with
  | some trips => tripsContent trips
  | none => .nothing

def Model.contentView (model : Model fields) : Content fields.Trip :=
  if model.loading then .loading
  else
    match model.errorMessage with
    | some err => .error err
    | none => model.tripsView

/-! ### Runs -/

inductive Answer (Trip : Type) where
  | response (trips : List Trip)
  | error (err : String)

/-- The widget with all its requests, the oldest first, and the answers to them. -/
structure Search (fields : Fields) where
  model : Model fields
  requests : List (RailVizTripGuessRequest × Option (Answer fields.Trip))

inductive SearchEvent (fields : Fields) where
  | msg (msg : Msg fields)
  | answer (i : ℕ) (answer : Answer fields.Trip)

def Msg.isAnswer : Msg fields → Bool
  | .receiveResponse .. | .receiveError .. => true
  | _ => false

namespace Search

variable (s : Search fields)

def sentBy (cmds : List (Cmd fields)) : List (RailVizTripGuessRequest × Option (Answer fields.Trip)) :=
  cmds.filterMap fun
    | .sendRequest _ request => some (request, none)
    | _ => none

def receive (msg : Msg fields) : Search fields :=
  let (model, cmds) := s.model.update msg
  ⟨model, s.requests ++ sentBy cmds⟩

def answered (request : RailVizTripGuessRequest) : Answer fields.Trip → Msg fields
  | .response trips => .receiveResponse request trips
  | .error err => .receiveError request err

def step : SearchEvent fields → Search fields
  | .msg msg => s.receive msg
  | .answer i answer =>
    match s.requests[i]? with
    | some (request, _) =>
      { s with requests := s.requests.set i (request, some answer) }.receive (answered request answer)
    | none => s

/-- Each request is answered once, in any order. -/
def Enabled : SearchEvent fields → Prop
  | .msg msg => msg.isAnswer = false
  | .answer i _ => ∃ request, s.requests[i]? = some (request, none)

end Search

def search (fields : Fields) : System (Search fields) (SearchEvent fields) where
  enabled := Search.Enabled
  step := Search.step

/-! ### The latest search -/

/-- What an answer to the latest request should show. -/
def outcome {Trip : Type} : Option (Answer Trip) → Content Trip
  | none => .loading
  | some (.response trips) => tripsContent trips
  | some (.error err) => .error err

/-- The answer to the latest request is shown, and the widget is loading while there is none. -/
structure ShowsLatest (s : Search fields) : Prop where
  content : s.model.contentView = (s.requests.getLast?.map fun r => outcome r.2).getD .nothing
  loading : s.model.loading = true ↔ ∃ request, s.requests.getLast? = some (request, none)

/-- An answer to the latest request is an error, or no request has failed before. An answer to an
    older one comes later than that to the latest one, and is the same, or trips after an error. -/
def Careful (s : Search fields) : SearchEvent fields → Prop
  | .msg _ => True
  | .answer i answer =>
    if i + 1 = s.requests.length then
      ∀ trips, answer = .response trips → s.model.errorMessage = none
    else ∃ request latest, s.requests.getLast? = some (request, some latest) ∧
      (answer = latest ∨ (∃ trips, answer = .response trips) ∧ ∃ err, latest = .error err)

section Step

variable {s : Search fields}

theorem contentView_eq (model : Model fields) : model.contentView =
    if model.loading then .loading else (model.errorMessage.map .error).getD model.tripsView := by
  rw [Model.contentView]
  cases model.errorMessage <;> rfl

section Trips

variable {Trip : Type} (trips : List Trip)

theorem tripsContent_cases :
    tripsContent trips = .noResults ∧ trips = [] ∨ tripsContent trips = .trips trips := by
  cases trips with
  | nil => exact .inl ⟨rfl, rfl⟩
  | cons trip trips => exact .inr rfl

@[simp] theorem tripsContent_ne_loading : tripsContent trips ≠ .loading := by
  rcases tripsContent_cases trips with ⟨h, -⟩ | h <;> rw [h] <;> exact nofun

@[simp] theorem tripsContent_ne_error (err : String) : tripsContent trips ≠ .error err := by
  rcases tripsContent_cases trips with ⟨h, -⟩ | h <;> rw [h] <;> exact nofun

@[simp] theorem tripsContent_inj {trips' : List Trip} :
    tripsContent trips = tripsContent trips' ↔ trips = trips' := by
  refine ⟨fun h => ?_, congrArg _⟩
  cases trips <;> cases trips' <;> cases h <;> rfl

end Trips

theorem tripsView_ne (model : Model fields) :
    model.tripsView ≠ .loading ∧ ∀ err, model.tripsView ≠ .error err := by
  rw [Model.tripsView]
  cases model.trips with
  | none => exact ⟨nofun, nofun⟩
  | some trips => exact ⟨tripsContent_ne_loading trips, tripsContent_ne_error trips⟩

theorem contentView_eq_loading_iff (model : Model fields) :
    model.contentView = .loading ↔ model.loading = true := by
  rw [contentView_eq]
  split_ifs with h
  · exact iff_of_true rfl h
  · refine iff_of_false ?_ h
    cases model.errorMessage with
    | none => exact (tripsView_ne model).1
    | some err => exact nofun

/-- An error is shown when it is there and nothing is loading. -/
theorem errorMessage_of_content {model : Model fields} {err : String}
    (h : model.contentView = .error err) : model.errorMessage = some err := by
  rw [contentView_eq] at h
  split_ifs at h
  cases herror : model.errorMessage with
  | none =>
    rw [herror] at h
    exact absurd h ((tripsView_ne model).2 err)
  | some err' =>
    rw [herror] at h
    cases h
    rfl

theorem errorMessage_of_trips {model : Model fields} {trips : List fields.Trip}
    (h : model.contentView = tripsContent trips) : model.errorMessage = none := by
  rw [contentView_eq] at h
  split_ifs at h
  · exact absurd h.symm (tripsContent_ne_loading trips)
  · cases herror : model.errorMessage with
    | none => rfl
    | some err =>
      rw [herror] at h
      exact absurd h.symm (tripsContent_ne_error trips err)

theorem outcome_eq_loading_iff {Trip : Type} (answer : Option (Answer Trip)) :
    outcome answer = .loading ↔ answer = none := by
  cases answer with
  | none => exact iff_of_true rfl rfl
  | some answer =>
    refine iff_of_false ?_ (Option.some_ne_none _)
    cases answer with
    | error err => exact nofun
    | response trips => exact tripsContent_ne_loading trips

/-- The content tells whether the widget is loading. -/
theorem showsLatest_iff : ShowsLatest s ↔
    s.model.contentView = (s.requests.getLast?.map fun r => outcome r.2).getD .nothing := by
  refine ⟨fun h => h.content, fun h => ⟨h, ?_⟩⟩
  rw [← contentView_eq_loading_iff, h]
  cases s.requests.getLast? with
  | none => exact iff_of_false nofun nofun
  | some r =>
    obtain ⟨request, answer⟩ := r
    rw [Option.map_some, Option.getD_some, outcome_eq_loading_iff]
    constructor
    · rintro rfl
      exact ⟨request, rfl⟩
    · rintro ⟨request', h'⟩
      exact (Prod.mk.inj (Option.some.inj h')).2

/-- What a check can do. -/
theorem checkRequest_cases (model : Model fields) : ∃ cmds,
    model.checkRequest = (model, cmds) ∧ Search.sentBy cmds = [] := by
  rw [Model.checkRequest]
  generalize (match model.currentRequest with
    | some currentRequest => model.buildRequest != currentRequest
    | none => true) = requestChanged
  split
  · exact ⟨_, rfl, rfl⟩
  · exact ⟨_, rfl, rfl⟩

/-- What the check of a model that shows the same leads to. -/
theorem receive_check {model : Model fields} {msg : Msg fields}
    (hupdate : s.model.update msg = model.checkRequest)
    (hcontent : model.contentView = s.model.contentView) :
    (s.receive msg).requests = s.requests ∧
      (s.receive msg).model.contentView = s.model.contentView := by
  obtain ⟨cmds, hcheck, hsent⟩ := checkRequest_cases model
  rw [Search.receive, hupdate, hcheck]
  exact ⟨by simp [hsent], hcontent⟩

/-- Messages that are no answers change what is shown by a search only. -/
theorem receive_msg {msg : Msg fields} (h : msg.isAnswer = false) :
    s.receive msg = ⟨{ s.model with currentRequest := some s.model.buildRequest, loading := true },
      s.requests ++ [(s.model.buildRequest, none)]⟩ ∨
    (s.receive msg).requests = s.requests ∧
      (s.receive msg).model.contentView = s.model.contentView := by
  cases msg with
  | receiveResponse request trips | receiveError request err => cases h
  | searchTrips => exact .inl rfl
  | trainNrInput _ | dateUpdate _ | timeUpdate _ => exact .inr (receive_check rfl rfl)
  | setTime newDate =>
    obtain ⟨cmds, hdate, hsent⟩ := checkRequest_cases
      ({ s.model with date := fields.calendarUpdate (fields.calendarInitDate true newDate) s.model.date })
    obtain ⟨cmds', htime, hsent'⟩ := checkRequest_cases
      ({ s.model with
        date := fields.calendarUpdate (fields.calendarInitDate true newDate) s.model.date
        time := fields.timeUpdate (fields.timeInitDate true newDate) s.model.time })
    refine .inr ⟨?_, ?_⟩
    · simp [Search.receive, Model.update, Model.updateDate, Model.updateTime, hdate, htime,
        Search.sentBy] at hsent hsent' ⊢
      exact ⟨hsent, hsent'⟩
    · simp only [Search.receive, Model.update, Model.updateDate, Model.updateTime, hdate, htime]
      rfl
  | _ => exact .inr ⟨List.append_nil _, rfl⟩

theorem getLast?_set {α : Type} {l : List α} {i : ℕ} (h : i < l.length) (a : α) :
    (l.set i a).getLast? = if i + 1 = l.length then some a else l.getLast? := by
  rw [List.getLast?_eq_getElem?, List.getLast?_eq_getElem?, List.length_set, List.getElem?_set]
  split_ifs <;> first | rfl | omega

/-- What an answer makes of the content. -/
theorem step_answer {i : ℕ} {request : RailVizTripGuessRequest} {old : Option (Answer fields.Trip)}
    (h : s.requests[i]? = some (request, old)) (answer : Answer fields.Trip) :
    (s.step (.answer i answer)).requests = s.requests.set i (request, some answer) ∧
      (s.step (.answer i answer)).model.contentView = match answer with
        | .response trips => (s.model.errorMessage.map .error).getD (tripsContent trips)
        | .error err => .error err := by
  rw [Search.step, h]
  refine ⟨?_, ?_⟩
  · cases answer <;> exact List.append_nil _
  · cases answer with
    | response trips =>
      simp only [Search.receive, Search.answered, Model.update, Model.contentView, Model.tripsView]
      cases s.model.errorMessage <;> rfl
    | error err => rfl

/-- What the latest request has been answered with is shown after a message. -/
theorem showsLatest_receive (h : ShowsLatest s) {msg : Msg fields} (hmsg : msg.isAnswer = false) :
    ShowsLatest (s.receive msg) := by
  rw [showsLatest_iff]
  rcases receive_msg hmsg with heq | ⟨hrequests, hcontent⟩
  · rw [heq]
    simp [Model.contentView, outcome]
  · rw [hrequests, hcontent]
    exact h.content

/-- What an answer to an older request leaves as it is. -/
theorem older_iff {request : RailVizTripGuessRequest} {latest : Option (Answer fields.Trip)}
    {answer : Answer fields.Trip} (h : s.model.contentView = outcome latest) :
    (match answer with
      | .response trips => (s.model.errorMessage.map .error).getD (tripsContent trips)
      | .error err => .error err) = outcome latest ↔
    ∃ request' latest', some (request, latest) = some (request', some latest') ∧
      (answer = latest' ∨ (∃ trips, answer = .response trips) ∧ ∃ err, latest' = .error err) := by
  cases latest with
  | none =>
    refine iff_of_false ?_ (by rintro ⟨_, _, hlatest, -⟩; cases hlatest)
    cases answer with
    | error err => exact nofun
    | response trips =>
      cases s.model.errorMessage with
      | none => exact tripsContent_ne_loading trips
      | some err => exact nofun
  | some latest =>
    cases latest with
    | error err =>
      have herror := errorMessage_of_content h
      cases answer with
      | response trips =>
        rw [herror]
        exact iff_of_true rfl ⟨request, _, rfl, .inr ⟨⟨trips, rfl⟩, err, rfl⟩⟩
      | error err' =>
        constructor
        · intro heq
          cases heq
          exact ⟨request, _, rfl, .inl rfl⟩
        · rintro ⟨_, _, hlatest, heq | ⟨⟨_, hresponse⟩, -⟩⟩
          · cases hlatest
            cases heq
            rfl
          · cases hresponse
    | response trips =>
      have herror := errorMessage_of_trips h
      cases answer with
      | error err =>
        refine iff_of_false (fun heq => tripsContent_ne_error trips err heq.symm) ?_
        rintro ⟨_, _, hlatest, heq | ⟨⟨_, hresponse⟩, -⟩⟩
        · cases hlatest
          cases heq
        · cases hresponse
      | response trips' =>
        rw [herror]
        constructor
        · intro heq
          obtain rfl := (tripsContent_inj trips').mp heq
          exact ⟨request, _, rfl, .inl rfl⟩
        · rintro ⟨_, _, hlatest, heq | ⟨-, _, herror⟩⟩
          · cases hlatest
            cases heq
            rfl
          · cases hlatest
            cases herror

/-- After an answer the widget shows the latest one exactly when the answer is careful. -/
theorem showsLatest_answer_iff (h : ShowsLatest s) {i : ℕ} {answer : Answer fields.Trip}
    (henabled : s.Enabled (.answer i answer)) :
    ShowsLatest (s.step (.answer i answer)) ↔ Careful s (.answer i answer) := by
  obtain ⟨request, hi⟩ := henabled
  obtain ⟨hrequests, hcontent⟩ := step_answer hi answer
  have hlt : i < s.requests.length := (List.getElem?_eq_some_iff.mp hi).1
  rw [showsLatest_iff, hrequests, hcontent, getLast?_set hlt, Careful]
  by_cases hlast : i + 1 = s.requests.length
  · rw [if_pos hlast, if_pos hlast]
    cases answer with
    | error err => exact iff_of_true rfl nofun
    | response trips =>
      cases herror : s.model.errorMessage with
      | none => exact iff_of_true rfl fun _ _ => rfl
      | some err =>
        exact iff_of_false (fun heq => tripsContent_ne_error trips err heq.symm)
          fun hnone => Option.some_ne_none err (hnone trips rfl)
  · rw [if_neg hlast, if_neg hlast]
    have hshown := h.content
    cases hlatest : s.requests.getLast? with
    | none =>
      rw [List.getLast?_eq_none_iff.mp hlatest] at hlt
      exact absurd hlt (Nat.not_lt_zero _)
    | some latest =>
      obtain ⟨request', answer'⟩ := latest
      rw [hlatest] at hshown
      exact older_iff hshown

end Step

/-- CORRECT: a run always shows the answer to the latest search exactly when its answers are
    careful. -/
theorem showsLatest_iff_careful (remoteAddress : String) (date : fields.Calendar)
    (time : fields.TimeInput) (events : List (SearchEvent fields))
    (hrun : Feasible (search fields) ⟨init remoteAddress date time, []⟩ events) :
    Always (search fields) ShowsLatest ⟨init remoteAddress date time, []⟩ events ↔
      Each (search fields) Careful ⟨init remoteAddress date time, []⟩ events := by
  refine always_iff_each (I := ShowsLatest) (fun s e h henabled hcareful => ?_) (fun _ h => h)
    (fun s e h henabled hshows => ?_) (showsLatest_iff.mpr rfl) hrun
  · cases e with
    | msg msg => exact showsLatest_receive h henabled
    | answer i answer => exact (showsLatest_answer_iff h henabled).mpr hcareful
  · cases e with
    | msg msg => trivial
    | answer i answer => exact (showsLatest_answer_iff h henabled).mp hshows

/-- The days are numbers, the time is noon, and trips are train numbers. -/
def plainFields : Fields where
  Calendar := ℤ
  CalendarMsg := ℤ
  calendarUpdate day _ := day
  TimeInput := Unit
  TimeInputMsg := Unit
  timeUpdate _ _ := ()
  unixTime day _ := day * 86400 + 43200
  Date := ℤ
  calendarInitDate _ day := day
  timeInitDate _ _ := ()
  Locale := Unit
  setDateConfig _ := 0
  setValidRange _ := 0
  Trip := ℕ
  toInt s := if s = "1" then some 1 else if s = "2113" then some 2113 else none
  debounce := .immediate

def started : Search plainFields := ⟨init "" (0 : ℤ) (), []⟩

/-- The second search succeeds after the first one has failed. -/
def afterError : List (SearchEvent plainFields) :=
  [.msg (.trainNrInput "1"), .msg .searchTrips, .answer 0 (.error "timeout"),
    .msg (.trainNrInput "2113"), .msg .searchTrips, .answer 1 (.response [(2113 : ℕ)])]

/-- The first search is answered after the second one. -/
def overtaken : List (SearchEvent plainFields) :=
  [.msg (.trainNrInput "1"), .msg .searchTrips, .msg (.trainNrInput "2113"), .msg .searchTrips,
    .answer 1 (.response [(2113 : ℕ)]), .answer 0 (.response [(1 : ℕ)])]

/-- After a failed search no trips are shown, and an old answer replaces a newer one. -/
theorem not_showsLatest_afterError :
    (Feasible (search plainFields) started afterError ∧
      ¬ Always (search plainFields) ShowsLatest started afterError) ∧
    (Feasible (search plainFields) started overtaken ∧
      ¬ Always (search plainFields) ShowsLatest started overtaken) := by
  refine ⟨⟨⟨rfl, rfl, ⟨_, rfl⟩, rfl, rfl, ⟨_, rfl⟩, trivial⟩, fun halways => ?_⟩,
    ⟨rfl, rfl, rfl, rfl, ⟨_, rfl⟩, ⟨_, rfl⟩, trivial⟩, fun halways => ?_⟩
  · cases halways.last.content
  · cases halways.last.content

theorem showsLatest_iff_careful_oneSearch :
    Always (search plainFields) ShowsLatest started
      [.msg (.trainNrInput "2113"), .msg .searchTrips, .answer 0 (.response [(2113 : ℕ)])] := by
  have hrun : Feasible (search plainFields) started
      [.msg (.trainNrInput "2113"), .msg .searchTrips, .answer 0 (.response [(2113 : ℕ)])] :=
    ⟨rfl, rfl, ⟨_, rfl⟩, trivial⟩
  exact (showsLatest_iff_careful "" _ _ _ hrun).mpr ⟨trivial, trivial, fun _ _ => rfl, trivial⟩

end Motis.Ui.TripSearch
