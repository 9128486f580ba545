import Mathlib.Data.List.Sort
import Motis.Lib.Runs

/-! The list of connections of the app.

    The list shows the connections of an interval, and loads what is before and after it when the
    user scrolls there. Each answer extends the interval at its side:

        loadBefore               loaded                     loadAfter
        [begin - 2h, begin - 1m] [begin, end] [end + 1m, end + 2h]

    A callback that scrolls may send the next request at once. What is visible then is up to the
    layout of the list, so the positions are data of an event. -/

namespace Motis.Android
open Runs

namespace ConnectionList

/-! ### Answers -/

inductive ProblemType where
  | noProblem | interchangeTimeViolated | canceledTrain
  deriving DecidableEq, Repr

/-- `departure` is the scheduled one of the first stop, in seconds. -/
structure Connection where
  departure : ℤ
  problems : List ProblemType
  deriving DecidableEq, Repr

structure RoutingResponse where
  connections : List Connection
  intervalBegin : ℤ
  intervalEnd : ℤ
  deriving DecidableEq, Repr

structure ConnectionWrapper where
  connection : Connection
  id : ℤ
  deriving DecidableEq, Repr

def hasNoProblems (c : Connection) : Bool := c.problems.all (· = .noProblem)

/-- `Collections.sort` is stable. -/
def sortConnections (data : List Connection) : List Connection :=
  data.insertionSort fun a b => a.departure ≤ b.departure

def getConnections (res : RoutingResponse) : List Connection :=
  sortConnections (res.connections.filter hasNoProblems)

/-- The connections, with the numbers from `id` on. -/
def wrapConnections (id : ℤ) (conns : List Connection) : List ConnectionWrapper :=
  conns.zipIdx.map fun (c, i) => ⟨c, id + i⟩

/-! ### State -/

def minuteInMs : ℤ := 60 * 1000
def searchIntervalMs : ℤ := 2 * (60 * minuteInMs)
def initialMinConnectionCount : ℕ := 5

inductive LoadType where
  | initial | before | after
  deriving DecidableEq, Repr

/-- What `route` is called with, and the callbacks: those of the three loads. -/
structure Request where
  type : LoadType
  searchIntervalBegin : ℤ
  searchIntervalEnd : ℤ
  extendIntervalEarlier : Bool
  extendIntervalLater : Bool
  minConnectionCount : ℕ
  deriving DecidableEq, Repr

structure ConnectionLoader where
  intervalBegin : ℤ
  intervalEnd : ℤ
  /-- The requests that are subscribed to. -/
  subscriptions : List Request := []
  data : List ConnectionWrapper := []
  serverError : Bool := false
  initialRequestPending : Bool := true
  firstId : ℤ := 0
  lastId : ℤ := 0
  deriving DecidableEq, Repr

/-- The view: the loader, the errors of the adapter, and the flags of `InfiniteScroll`. -/
structure JourneyListView where
  loader : ConnectionLoader
  errorBefore : Bool := false
  errorAfter : Bool := false
  loadingBefore : Bool := false
  loadingAfter : Bool := false
  deriving DecidableEq, Repr

/-! ### Loading -/

namespace ConnectionLoader

def reset (queryTime : ℤ) : ConnectionLoader :=
  { intervalBegin := queryTime, intervalEnd := queryTime + searchIntervalMs }

def route (l : ConnectionLoader) (r : Request) : ConnectionLoader :=
  { l with subscriptions := l.subscriptions ++ [r] }

def loadInitial (l : ConnectionLoader) : ConnectionLoader :=
  l.route ⟨.initial, l.intervalBegin, l.intervalEnd, true, true, initialMinConnectionCount⟩

def loadBefore (l : ConnectionLoader) : ConnectionLoader :=
  l.route
    ⟨.before, l.intervalBegin - searchIntervalMs, l.intervalBegin - minuteInMs, true, false, 0⟩

def loadAfter (l : ConnectionLoader) : ConnectionLoader :=
  l.route ⟨.after, l.intervalEnd + minuteInMs, l.intervalEnd + searchIntervalMs, false, true, 0⟩

def initialLoaded (l : ConnectionLoader) (res : RoutingResponse) : ConnectionLoader :=
  { l with
    intervalBegin := res.intervalBegin * 1000
    intervalEnd := res.intervalEnd * 1000
    initialRequestPending := false
    serverError := l.serverError || res.connections.isEmpty
    firstId := 0
    lastId := res.connections.length - 1
    data := wrapConnections 0 (getConnections res) }

def initialFailed (l : ConnectionLoader) : ConnectionLoader :=
  { l with initialRequestPending := false, serverError := true }

def beforeLoaded (l : ConnectionLoader) (r : Request) (res : RoutingResponse) : ConnectionLoader :=
  let newConns := getConnections res
  let firstId := l.firstId - newConns.length
  { l with
    firstId
    intervalBegin := r.searchIntervalBegin
    data := wrapConnections firstId newConns ++ l.data }

def afterLoaded (l : ConnectionLoader) (r : Request) (res : RoutingResponse) : ConnectionLoader :=
  let newConns := getConnections res
  { l with
    lastId := l.lastId + newConns.length
    intervalEnd := r.searchIntervalEnd
    data := l.data ++ wrapConnections (l.lastId + 1) newConns }

end ConnectionLoader

/-! ### Scrolling -/

inductive ViewType where
  | loadingSpinner | journeyPreview | errorBefore | errorAfter
  deriving DecidableEq, Repr

/-- What the layout manager says is visible; `-1` is no position. -/
structure Visible where
  first : ℤ
  last : ℤ
  deriving DecidableEq, Repr

def noPosition : ℤ := -1

namespace JourneyListView

/-- The connections, with an item before and one after them. -/
def getItemCount (s : JourneyListView) : ℤ := s.loader.data.length + 2

def getItemViewType (s : JourneyListView) (position : ℤ) : ViewType :=
  if position = 0 then if s.errorBefore then .errorBefore else .loadingSpinner
  else if position = s.getItemCount - 1 then if s.errorAfter then .errorAfter else .loadingSpinner
  else .journeyPreview

def loadBefore (s : JourneyListView) : JourneyListView :=
  if s.errorBefore then s else { s with loader := s.loader.loadBefore }

def loadAfter (s : JourneyListView) : JourneyListView :=
  if s.errorAfter then s else { s with loader := s.loader.loadAfter }

def onScrolled (s : JourneyListView) (v : Visible) : JourneyListView :=
  if !s.loadingAfter && (v.last ≠ noPosition && s.getItemViewType v.last = .loadingSpinner) then
    loadAfter { s with loadingAfter := true }
  else if !s.loadingBefore && v.first = 0 then loadBefore { s with loadingBefore := true }
  else s

def notifyLoadBeforeFinished (s : JourneyListView) (v : Visible) : JourneyListView :=
  onScrolled { s with loadingBefore := false } v

def notifyLoadAfterFinished (s : JourneyListView) (v : Visible) : JourneyListView :=
  onScrolled { s with loadingAfter := false } v

def notifyLoadFinished (s : JourneyListView) (v v' : Visible) : JourneyListView :=
  (s.notifyLoadAfterFinished v).notifyLoadBeforeFinished v'

/-- A new query: the loader is reset, and nothing is loaded by scrolling until it is answered. -/
def loadInitial (queryTime : ℤ) : JourneyListView where
  loader := (ConnectionLoader.reset queryTime).loadInitial
  loadingBefore := true
  loadingAfter := true

/-! ### Callbacks -/

/-- The callback of a request that was answered; the request is no longer subscribed to. -/
def loaded (s : JourneyListView) (r : Request) (res : RoutingResponse) (v v' : Visible) :
    JourneyListView :=
  let newConns := getConnections res
  match r.type with
  | .initial => { s with loader := s.loader.initialLoaded res }.notifyLoadFinished v v'
  | .before =>
    let s := { s with loader := s.loader.beforeLoaded r res }
    -- the new first item is known, the last one is what is visible
    let s := s.notifyLoadBeforeFinished { v with first := newConns.length }
    if res.connections.isEmpty then s.onScrolled v' else s
  | .after =>
    let s := { s with loader := s.loader.afterLoaded r res }
    let s := s.notifyLoadAfterFinished v
    if res.connections.isEmpty then s.onScrolled v' else s

/-- The callback of a request that failed, with an error of the server or another one. -/
def failed (s : JourneyListView) (r : Request) (motisError : Bool) (v v' : Visible) :
    JourneyListView :=
  match r.type with
  | .initial => { s with loader := s.loader.initialFailed }.notifyLoadFinished v v'
  | .before =>
    let s := s.notifyLoadBeforeFinished v
    { s with errorBefore := s.errorBefore || motisError }
  | .after =>
    let s := s.notifyLoadAfterFinished v
    { s with errorAfter := s.errorAfter || motisError }

def unsubscribe (s : JourneyListView) (r : Request) : JourneyListView :=
  { s with loader := { s.loader with subscriptions := s.loader.subscriptions.erase r } }

end JourneyListView

inductive Event where
  | loadInitial (queryTime : ℤ)
  | scrolled (v : Visible)
  | response (r : Request) (res : RoutingResponse) (v v' : Visible)
  | failure (r : Request) (motisError : Bool) (v v' : Visible)
  deriving DecidableEq, Repr

/-- Only a request that is subscribed to is answered. -/
def enabled (s : JourneyListView) : Event → Prop
  | .response r .. | .failure r .. => r ∈ s.loader.subscriptions
  | _ => True

def step (s : JourneyListView) : Event → JourneyListView
  | .loadInitial queryTime => .loadInitial queryTime
  | .scrolled v => s.onScrolled v
  | .response r res v v' => (s.unsubscribe r).loaded r res v v'
  | .failure r motisError v v' => (s.unsubscribe r).failed r motisError v v'

def system : System JourneyListView Event := ⟨enabled, step⟩

/-! ### What scrolling does -/

/-- The request of a load, in the present interval. -/
def ConnectionLoader.request (l : ConnectionLoader) : LoadType → Request
  | .initial => ⟨.initial, l.intervalBegin, l.intervalEnd, true, true, initialMinConnectionCount⟩
  | .before => ⟨.before, l.intervalBegin - searchIntervalMs, l.intervalBegin - minuteInMs, true,
      false, 0⟩
  | .after => ⟨.after, l.intervalEnd + minuteInMs, l.intervalEnd + searchIntervalMs, false, true, 0⟩

@[simp] theorem ConnectionLoader.request_type (l : ConnectionLoader) (t : LoadType) :
    (l.request t).type = t := by
  cases t <;> rfl

/-- Scrolling sets the flag of one side at most, and sends its request unless there was an error. -/
inductive Scrolled (s : JourneyListView) : JourneyListView → Prop
  | idle : Scrolled s s
  | after : s.loadingAfter = false → s.errorAfter = false →
      Scrolled s { s with loadingAfter := true, loader := s.loader.route (s.loader.request .after) }
  | afterError : s.loadingAfter = false → s.errorAfter = true →
      Scrolled s { s with loadingAfter := true }
  | before : s.loadingBefore = false → s.errorBefore = false →
      Scrolled s { s with
        loadingBefore := true, loader := s.loader.route (s.loader.request .before) }
  | beforeError : s.loadingBefore = false → s.errorBefore = true →
      Scrolled s { s with loadingBefore := true }

theorem scrolled_onScrolled (s : JourneyListView) (v : Visible) : Scrolled s (s.onScrolled v) := by
  rw [JourneyListView.onScrolled]
  split
  · rename_i h
    simp only [Bool.and_eq_true, Bool.not_eq_true'] at h
    rw [JourneyListView.loadAfter]
    split
    · rename_i herror
      exact .afterError h.1 herror
    · rename_i herror
      exact .after h.1 (Bool.eq_false_of_not_eq_true herror)
  · split
    · rename_i h
      simp only [Bool.and_eq_true, Bool.not_eq_true'] at h
      rw [JourneyListView.loadBefore]
      split
      · rename_i herror
        exact .beforeError h.1 herror
      · rename_i herror
        exact .before h.1 (Bool.eq_false_of_not_eq_true herror)
    · exact .idle

/-- Nothing that is shown is changed by scrolling. -/
structure SameList (l l' : ConnectionLoader) : Prop where
  intervalBegin : l'.intervalBegin = l.intervalBegin
  intervalEnd : l'.intervalEnd = l.intervalEnd
  data : l'.data = l.data
  firstId : l'.firstId = l.firstId
  lastId : l'.lastId = l.lastId
  initialRequestPending : l'.initialRequestPending = l.initialRequestPending

theorem Scrolled.sameList {s s' : JourneyListView} (h : Scrolled s s') :
    SameList s.loader s'.loader := by
  cases h <;> exact ⟨rfl, rfl, rfl, rfl, rfl, rfl⟩

theorem SameList.request {l l' : ConnectionLoader} (h : SameList l l') :
    l'.request = l.request := by
  funext t
  cases t <;> simp only [ConnectionLoader.request, h.intervalBegin, h.intervalEnd]

/-! ### Requests and flags -/

/-- The loads that wait for an answer. -/
def ConnectionLoader.waiting (l : ConnectionLoader) : List LoadType := l.subscriptions.map (·.type)

/-- What holds also while a callback runs. -/
structure Sound (s : JourneyListView) : Prop where
  /-- There is one request of a load at most. -/
  nodup : s.loader.waiting.Nodup
  /-- It is about what is next to the loaded interval. -/
  current : ∀ r ∈ s.loader.subscriptions, r = s.loader.request r.type
  pending : s.loader.initialRequestPending = true ↔ .initial ∈ s.loader.waiting
  initial : .initial ∈ s.loader.waiting →
    s.loader.waiting = [.initial] ∧ s.loadingBefore = true ∧ s.loadingAfter = true
  before : .before ∈ s.loader.waiting → s.loadingBefore = true
  after : .after ∈ s.loader.waiting → s.loadingAfter = true

/-- A side that is loading waits for an answer, or shows an error. -/
def BeforeWaits (s : JourneyListView) : Prop := s.loadingBefore = true →
  .initial ∈ s.loader.waiting ∨ .before ∈ s.loader.waiting ∨ s.errorBefore = true

def AfterWaits (s : JourneyListView) : Prop := s.loadingAfter = true →
  .initial ∈ s.loader.waiting ∨ .after ∈ s.loader.waiting ∨ s.errorAfter = true

theorem waiting_route (l : ConnectionLoader) (r : Request) :
    (l.route r).waiting = l.waiting ++ [r.type] := by
  simp [ConnectionLoader.waiting, ConnectionLoader.route]

/-- A request of a side that is not loading. -/
theorem Sound.route {s s' : JourneyListView} {t : LoadType} (h : Sound s) (hnot : t ≠ .initial)
    (hnew : t ∉ s.loader.waiting) (hinitial : .initial ∉ s.loader.waiting)
    (hloader : s'.loader = s.loader.route (s.loader.request t))
    (hbefore : s.loadingBefore = true ∨ t = .before → s'.loadingBefore = true)
    (hafter : s.loadingAfter = true ∨ t = .after → s'.loadingAfter = true) : Sound s' := by
  have hwaiting : s'.loader.waiting = s.loader.waiting ++ [t] := by
    rw [hloader, waiting_route, ConnectionLoader.request_type]
  have hmem : ∀ t', t' ∈ s'.loader.waiting ↔ t' ∈ s.loader.waiting ∨ t' = t := by
    simp [hwaiting]
  have hsame : SameList s.loader s'.loader := by
    rw [hloader]
    exact ⟨rfl, rfl, rfl, rfl, rfl, rfl⟩
  have hgone : .initial ∉ s'.loader.waiting := by
    rw [hmem]
    rintro (hmem | heq)
    · exact hinitial hmem
    · exact hnot heq.symm
  refine ⟨?_, ?_, ?_, fun hmem => absurd hmem hgone, ?_, ?_⟩
  · rw [hwaiting]
    exact List.nodup_append.mpr ⟨h.nodup, List.nodup_singleton t, by
      rintro a ha b hb rfl
      exact hnew (List.mem_singleton.mp hb ▸ ha)⟩
  · intro r hr
    rw [hsame.request]
    rw [hloader, ConnectionLoader.route] at hr
    rcases List.mem_append.mp hr with hr | hr
    · exact h.current r hr
    · rw [List.mem_singleton.mp hr, ConnectionLoader.request_type]
  · rw [hsame.initialRequestPending, h.pending]
    exact iff_of_false hinitial hgone
  · intro hmem'
    refine hbefore ?_
    rcases (hmem _).mp hmem' with hmem' | heq
    · exact .inl (h.before hmem')
    · exact .inr heq.symm
  · intro hmem'
    refine hafter ?_
    rcases (hmem _).mp hmem' with hmem' | heq
    · exact .inl (h.after hmem')
    · exact .inr heq.symm

theorem Sound.scrolled {s s' : JourneyListView} (h : Sound s) (hs : Scrolled s s') : Sound s' := by
  have hno : ∀ {b : Bool}, b = false → b ≠ true := by
    rintro b rfl
    simp
  cases hs with
  | idle => exact h
  | after hflag _ =>
    refine h.route (by simp) (fun hmem => hno hflag (h.after hmem))
      (fun hmem => hno hflag (h.initial hmem).2.2) rfl ?_ ?_
    · simp
    · simp
  | before hflag _ =>
    refine h.route (by simp) (fun hmem => hno hflag (h.before hmem))
      (fun hmem => hno hflag (h.initial hmem).2.1) rfl ?_ ?_
    · simp
    · simp
  | afterError hflag _ =>
    exact ⟨h.nodup, h.current, h.pending, fun hmem => absurd (h.initial hmem).2.2 (hno hflag),
      h.before, fun _ => rfl⟩
  | beforeError hflag _ =>
    exact ⟨h.nodup, h.current, h.pending, fun hmem => absurd (h.initial hmem).2.1 (hno hflag),
      fun _ => rfl, h.after⟩

theorem BeforeWaits.scrolled {s s' : JourneyListView} (h : BeforeWaits s) (hs : Scrolled s s') :
    BeforeWaits s' := by
  cases hs with
  | idle => exact h
  | after _ _ =>
    intro hflag
    rw [waiting_route]
    rcases h hflag with hmem | hmem | herror
    · exact .inl (List.mem_append_left _ hmem)
    · exact .inr (.inl (List.mem_append_left _ hmem))
    · exact .inr (.inr herror)
  | afterError _ _ => exact h
  | before _ _ => exact fun _ => .inr (.inl (by simp [waiting_route]))
  | beforeError _ herror => exact fun _ => .inr (.inr herror)

theorem AfterWaits.scrolled {s s' : JourneyListView} (h : AfterWaits s) (hs : Scrolled s s') :
    AfterWaits s' := by
  cases hs with
  | idle => exact h
  | before _ _ =>
    intro hflag
    rw [waiting_route]
    rcases h hflag with hmem | hmem | herror
    · exact .inl (List.mem_append_left _ hmem)
    · exact .inr (.inl (List.mem_append_left _ hmem))
    · exact .inr (.inr herror)
  | beforeError _ _ => exact h
  | after _ _ => exact fun _ => .inr (.inl (by simp [waiting_route]))
  | afterError _ herror => exact fun _ => .inr (.inr herror)

/-- What holds between two events. -/
structure Accounted (s : JourneyListView) : Prop extends Sound s where
  beforeWaits : BeforeWaits s
  afterWaits : AfterWaits s

theorem Accounted.scrolled {s s' : JourneyListView} (h : Accounted s) (hs : Scrolled s s') :
    Accounted s' :=
  ⟨h.toSound.scrolled hs, h.beforeWaits.scrolled hs, h.afterWaits.scrolled hs⟩

theorem accounted_loadInitial (queryTime : ℤ) :
    Accounted (JourneyListView.loadInitial queryTime) := by
  have hwaiting : (JourneyListView.loadInitial queryTime).loader.waiting = [.initial] := rfl
  refine ⟨⟨?_, ?_, ?_, fun _ => ⟨hwaiting, rfl, rfl⟩, ?_, ?_⟩, ?_, ?_⟩
  · simp [hwaiting]
  · intro r hr
    rw [List.mem_singleton.mp hr]
    rfl
  · exact iff_of_true rfl (by simp [hwaiting])
  · simp [hwaiting]
  · simp [hwaiting]
  · exact fun _ => .inl (by simp [hwaiting])
  · exact fun _ => .inl (by simp [hwaiting])

/-! ### Callbacks -/

/-- The loads that wait when a request has been answered. -/
theorem mem_waiting_erase {l l' : ConnectionLoader} {r : Request} (hnodup : l.waiting.Nodup)
    (hr : r ∈ l.subscriptions) (h : l'.subscriptions = l.subscriptions.erase r) (t : LoadType) :
    t ∈ l'.waiting ↔ t ∈ l.waiting ∧ t ≠ r.type := by
  have hsubs : l.subscriptions.Nodup := .of_map _ hnodup
  simp only [ConnectionLoader.waiting, h, List.mem_map, hsubs.mem_erase_iff]
  constructor
  · rintro ⟨r', ⟨hne, hr'⟩, rfl⟩
    refine ⟨⟨r', hr', rfl⟩, fun heq => hne ?_⟩
    exact List.inj_on_of_nodup_map hnodup hr' hr heq
  · rintro ⟨⟨r', hr', rfl⟩, hne⟩
    exact ⟨r', ⟨fun heq => hne (heq ▸ rfl), hr'⟩, rfl⟩

/-- The initial request is alone. -/
theorem Sound.not_initial {s : JourneyListView} (h : Sound s) {r : Request}
    (hr : r ∈ s.loader.subscriptions) (hne : r.type ≠ .initial) : .initial ∉ s.loader.waiting := by
  intro hmem
  have hwaits : r.type ∈ s.loader.waiting := List.mem_map_of_mem hr
  rw [(h.initial hmem).1, List.mem_singleton] at hwaits
  exact hne hwaits

theorem Sound.erase_initial {s : JourneyListView} (h : Sound s) {r : Request}
    (hr : r ∈ s.loader.subscriptions) (htype : r.type = .initial) :
    s.loader.subscriptions.erase r = [] := by
  have hmem : .initial ∈ s.loader.waiting := htype ▸ List.mem_map_of_mem hr
  have hlength := congrArg List.length (h.initial hmem).1
  rw [ConnectionLoader.waiting, List.length_map, List.length_singleton] at hlength
  rw [← List.length_eq_zero_iff, List.length_erase_of_mem hr, hlength]

/-- Nothing waits when the initial request has been answered. -/
theorem sound_idle {s : JourneyListView} (hsubs : s.loader.subscriptions = [])
    (hpending : s.loader.initialRequestPending = false) : Sound s := by
  have hwaiting : s.loader.waiting = [] := by rw [ConnectionLoader.waiting, hsubs, List.map_nil]
  refine ⟨?_, ?_, ?_, ?_, ?_, ?_⟩
  · simp [hwaiting]
  · simp [hsubs]
  · simp [hwaiting, hpending]
  · simp [hwaiting]
  · simp [hwaiting]
  · simp [hwaiting]

/-- Only the other side is loaded while one is loading. -/
theorem Scrolled.waiting_after {s s' : JourneyListView} (h : Scrolled s s')
    (hbefore : s.loadingBefore = true) (hnone : s.loader.waiting = []) :
    ∀ t ∈ s'.loader.waiting, t = .after := by
  cases h with
  | idle => simp [hnone]
  | after _ _ => simp [waiting_route, hnone]
  | afterError _ _ => simp [hnone]
  | before hflag _ => simp [hbefore] at hflag
  | beforeError hflag _ => simp [hbefore] at hflag

/-- Both sides may be loaded when the initial request has been answered. -/
theorem accounted_notifyLoadFinished {s : JourneyListView} (hsubs : s.loader.subscriptions = [])
    (hpending : s.loader.initialRequestPending = false) (hbefore : s.loadingBefore = true)
    (v v' : Visible) : Accounted (s.notifyLoadFinished v v') := by
  have hsound : Sound { s with loadingAfter := false } := sound_idle hsubs hpending
  have hwaits : AfterWaits { s with loadingAfter := false } := fun hflag => by cases hflag
  have hscrolled := scrolled_onScrolled { s with loadingAfter := false } v
  have hsound' := hsound.scrolled hscrolled
  have hwaits' := hwaits.scrolled hscrolled
  have hnone : s.loader.waiting = [] := by rw [ConnectionLoader.waiting, hsubs, List.map_nil]
  have hafter := hscrolled.waiting_after hbefore hnone
  have hquiet : Accounted { s.notifyLoadAfterFinished v with loadingBefore := false } := by
    refine ⟨⟨hsound'.nodup, hsound'.current, hsound'.pending, fun hmem => ?_, fun hmem => ?_,
      hsound'.after⟩, (fun hflag => by cases hflag), hwaits'⟩
    · cases hafter _ hmem
    · cases hafter _ hmem
  exact hquiet.scrolled (scrolled_onScrolled _ v')

/-- The side of a request that has been answered may be loaded again. -/
theorem Accounted.answered_before {s : JourneyListView} (h : Accounted s) {r : Request}
    (hr : r ∈ s.loader.subscriptions) (htype : r.type = .before) {l : ConnectionLoader}
    (hsubs : l.subscriptions = s.loader.subscriptions.erase r)
    (hend : l.intervalEnd = s.loader.intervalEnd)
    (hpending : l.initialRequestPending = s.loader.initialRequestPending) :
    Accounted { s with loader := l, loadingBefore := false } := by
  have hmem := mem_waiting_erase h.nodup hr hsubs
  have hinitial : .initial ∉ s.loader.waiting := h.not_initial hr (by simp [htype])
  have hgone : .initial ∉ l.waiting := fun hwaits => hinitial ((hmem _).mp hwaits).1
  refine ⟨⟨?_, ?_, ?_, fun hwaits => absurd hwaits hgone, ?_, ?_⟩,
    (fun hflag => by cases hflag), ?_⟩
  · rw [ConnectionLoader.waiting, hsubs]
    exact h.nodup.sublist (List.erase_sublist.map _)
  · intro r' hr'
    have hwaits : r'.type ∈ l.waiting := List.mem_map_of_mem hr'
    have hold := h.current r' (List.mem_of_mem_erase (hsubs ▸ hr'))
    -- only a request for what is after the interval is left
    cases htype' : r'.type with
    | initial => exact absurd (htype' ▸ hwaits) hgone
    | before => exact absurd htype.symm (htype' ▸ ((hmem _).mp hwaits).2)
    | after =>
      rw [htype'] at hold
      rw [hold]
      simp only [ConnectionLoader.request, hend]
  · rw [hpending, h.pending]
    exact iff_of_false hinitial hgone
  · exact fun hwaits => absurd htype.symm ((hmem _).mp hwaits).2
  · exact fun hwaits => h.after ((hmem _).mp hwaits).1
  · intro hflag
    rcases h.afterWaits hflag with hwaits | hwaits | herror
    · exact absurd hwaits hinitial
    · exact .inr (.inl ((hmem _).mpr ⟨hwaits, by simp [htype]⟩))
    · exact .inr (.inr herror)

theorem Accounted.answered_after {s : JourneyListView} (h : Accounted s) {r : Request}
    (hr : r ∈ s.loader.subscriptions) (htype : r.type = .after) {l : ConnectionLoader}
    (hsubs : l.subscriptions = s.loader.subscriptions.erase r)
    (hbegin : l.intervalBegin = s.loader.intervalBegin)
    (hpending : l.initialRequestPending = s.loader.initialRequestPending) :
    Accounted { s with loader := l, loadingAfter := false } := by
  have hmem := mem_waiting_erase h.nodup hr hsubs
  have hinitial : .initial ∉ s.loader.waiting := h.not_initial hr (by simp [htype])
  have hgone : .initial ∉ l.waiting := fun hwaits => hinitial ((hmem _).mp hwaits).1
  refine ⟨⟨?_, ?_, ?_, fun hwaits => absurd hwaits hgone, ?_, ?_⟩, ?_,
    fun hflag => by cases hflag⟩
  · rw [ConnectionLoader.waiting, hsubs]
    exact h.nodup.sublist (List.erase_sublist.map _)
  · intro r' hr'
    have hwaits : r'.type ∈ l.waiting := List.mem_map_of_mem hr'
    have hold := h.current r' (List.mem_of_mem_erase (hsubs ▸ hr'))
    cases htype' : r'.type with
    | initial => exact absurd (htype' ▸ hwaits) hgone
    | after => exact absurd htype.symm (htype' ▸ ((hmem _).mp hwaits).2)
    | before =>
      rw [htype'] at hold
      rw [hold]
      simp only [ConnectionLoader.request, hbegin]
  · rw [hpending, h.pending]
    exact iff_of_false hinitial hgone
  · exact fun hwaits => h.before ((hmem _).mp hwaits).1
  · exact fun hwaits => absurd htype.symm ((hmem _).mp hwaits).2
  · intro hflag
    rcases h.beforeWaits hflag with hwaits | hwaits | herror
    · exact absurd hwaits hinitial
    · exact .inr (.inl ((hmem _).mpr ⟨hwaits, by simp [htype]⟩))
    · exact .inr (.inr herror)

theorem Accounted.errors {s : JourneyListView} (h : Accounted s) (b a : Bool) :
    Accounted { s with errorBefore := s.errorBefore || b, errorAfter := s.errorAfter || a } := by
  refine ⟨⟨h.nodup, h.current, h.pending, h.initial, h.before, h.after⟩, fun hflag => ?_,
    fun hflag => ?_⟩
  · exact (h.beforeWaits hflag).imp_right (Or.imp_right fun herror => by simp [herror])
  · exact (h.afterWaits hflag).imp_right (Or.imp_right fun herror => by simp [herror])

theorem Accounted.loaded {s : JourneyListView} (h : Accounted s) {r : Request}
    (hr : r ∈ s.loader.subscriptions) (res : RoutingResponse) (v v' : Visible) :
    Accounted ((s.unsubscribe r).loaded r res v v') := by
  rw [JourneyListView.loaded]
  cases htype : r.type with
  | initial =>
    have hmem : .initial ∈ s.loader.waiting := htype ▸ List.mem_map_of_mem hr
    refine accounted_notifyLoadFinished ?_ ?_ ?_ v v'
    · exact h.erase_initial hr htype
    · rfl
    · exact (h.initial hmem).2.1
  | before =>
    have hquiet := (h.answered_before hr htype (l := (s.unsubscribe r).loader.beforeLoaded r res)
      rfl rfl rfl).scrolled (scrolled_onScrolled _ { v with first := (getConnections res).length })
    simp only
    split
    · exact hquiet.scrolled (scrolled_onScrolled _ v')
    · exact hquiet
  | after =>
    have hquiet := (h.answered_after hr htype (l := (s.unsubscribe r).loader.afterLoaded r res)
      rfl rfl rfl).scrolled (scrolled_onScrolled _ v)
    simp only
    split
    · exact hquiet.scrolled (scrolled_onScrolled _ v')
    · exact hquiet

theorem Accounted.failed {s : JourneyListView} (h : Accounted s) {r : Request}
    (hr : r ∈ s.loader.subscriptions) (motisError : Bool) (v v' : Visible) :
    Accounted ((s.unsubscribe r).failed r motisError v v') := by
  rw [JourneyListView.failed]
  cases htype : r.type with
  | initial =>
    have hmem : .initial ∈ s.loader.waiting := htype ▸ List.mem_map_of_mem hr
    refine accounted_notifyLoadFinished ?_ ?_ ?_ v v'
    · exact h.erase_initial hr htype
    · rfl
    · exact (h.initial hmem).2.1
  | before =>
    have hquiet := (h.answered_before hr htype (l := (s.unsubscribe r).loader) rfl rfl
      rfl).scrolled (scrolled_onScrolled _ v)
    have herrors := hquiet.errors motisError false
    rw [Bool.or_false] at herrors
    exact herrors
  | after =>
    have hquiet := (h.answered_after hr htype (l := (s.unsubscribe r).loader) rfl rfl
      rfl).scrolled (scrolled_onScrolled _ v)
    have herrors := hquiet.errors false motisError
    rw [Bool.or_false] at herrors
    exact herrors

theorem accounted_step {s : JourneyListView} {e : Event} (h : Accounted s) (he : enabled s e) :
    Accounted (step s e) := by
  cases e with
  | loadInitial queryTime => exact accounted_loadInitial queryTime
  | scrolled v => exact h.scrolled (scrolled_onScrolled s v)
  | response r res v v' => exact h.loaded he res v v'
  | failure r motisError v v' => exact h.failed he motisError v v'

/-! ### What a callback does to the list -/

theorem SameList.trans {l l' l'' : ConnectionLoader} (h : SameList l l') (h' : SameList l' l'') :
    SameList l l'' :=
  ⟨h'.intervalBegin.trans h.intervalBegin, h'.intervalEnd.trans h.intervalEnd,
    h'.data.trans h.data, h'.firstId.trans h.firstId, h'.lastId.trans h.lastId,
    h'.initialRequestPending.trans h.initialRequestPending⟩

theorem sameList_onScrolled (s : JourneyListView) (v : Visible) :
    SameList s.loader (s.onScrolled v).loader := (scrolled_onScrolled s v).sameList

theorem sameList_notifyLoadFinished (s : JourneyListView) (v v' : Visible) :
    SameList s.loader (s.notifyLoadFinished v v').loader :=
  (sameList_onScrolled { s with loadingAfter := false } v).trans
    (sameList_onScrolled { s.notifyLoadAfterFinished v with loadingBefore := false } v')

/-- What an answer does to the list. -/
def ConnectionLoader.answer (l : ConnectionLoader) (r : Request) (res : RoutingResponse) :
    ConnectionLoader :=
  match r.type with
  | .initial => l.initialLoaded res
  | .before => l.beforeLoaded r res
  | .after => l.afterLoaded r res

/-- The answer changes the list, what is scrolled to then does not. -/
theorem sameList_loaded (s : JourneyListView) (r : Request) (res : RoutingResponse)
    (v v' : Visible) :
    SameList (s.loader.answer r res) ((s.unsubscribe r).loaded r res v v').loader := by
  have hunsubscribe : SameList (s.loader.answer r res) ((s.unsubscribe r).loader.answer r res) := by
    rw [ConnectionLoader.answer, ConnectionLoader.answer]
    cases r.type <;> exact ⟨rfl, rfl, rfl, rfl, rfl, rfl⟩
  refine hunsubscribe.trans ?_
  generalize s.unsubscribe r = s'
  rw [JourneyListView.loaded, ConnectionLoader.answer]
  cases r.type with
  | initial =>
    exact sameList_notifyLoadFinished { s' with loader := s'.loader.initialLoaded res } v v'
  | before =>
    have hfirst := sameList_onScrolled { s' with
      loader := s'.loader.beforeLoaded r res, loadingBefore := false }
        { v with first := (getConnections res).length }
    simp only
    split
    · exact hfirst.trans (sameList_onScrolled _ v')
    · exact hfirst
  | after =>
    have hfirst := sameList_onScrolled { s' with
      loader := s'.loader.afterLoaded r res, loadingAfter := false } v
    simp only
    split
    · exact hfirst.trans (sameList_onScrolled _ v')
    · exact hfirst

/-- A request that failed leaves the list as it was. -/
def ConnectionLoader.fail (l : ConnectionLoader) (r : Request) : ConnectionLoader :=
  match r.type with
  | .initial => l.initialFailed
  | _ => l

theorem sameList_failed (s : JourneyListView) (r : Request) (motisError : Bool) (v v' : Visible) :
    SameList (s.loader.fail r) ((s.unsubscribe r).failed r motisError v v').loader := by
  have hunsubscribe : SameList (s.loader.fail r) ((s.unsubscribe r).loader.fail r) := by
    rw [ConnectionLoader.fail, ConnectionLoader.fail]
    cases r.type <;> exact ⟨rfl, rfl, rfl, rfl, rfl, rfl⟩
  refine hunsubscribe.trans ?_
  generalize s.unsubscribe r = s'
  rw [JourneyListView.failed, ConnectionLoader.fail]
  cases r.type with
  | initial => exact sameList_notifyLoadFinished { s' with loader := s'.loader.initialFailed } v v'
  | before => exact sameList_onScrolled { s' with loadingBefore := false } v
  | after => exact sameList_onScrolled { s' with loadingAfter := false } v

/-! ### Numbers -/

/-- The connections are numbered in their order, between the first and the last number. -/
structure Numbered (l : ConnectionLoader) : Prop where
  increasing : l.data.Pairwise (·.id < ·.id)
  bounds : ∀ w ∈ l.data, l.firstId ≤ w.id ∧ w.id ≤ l.lastId
  ordered : l.firstId ≤ l.lastId + 1

theorem mem_wrapConnections {id : ℤ} {conns : List Connection} {w : ConnectionWrapper}
    (h : w ∈ wrapConnections id conns) : id ≤ w.id ∧ w.id < id + conns.length := by
  obtain ⟨⟨c, i⟩, hmem, rfl⟩ := List.mem_map.mp h
  have hi := (List.mem_zipIdx' hmem).1
  simp only
  omega

theorem pairwise_wrapConnections (id : ℤ) (conns : List Connection) :
    (wrapConnections id conns).Pairwise (·.id < ·.id) := by
  rw [wrapConnections, List.pairwise_map, List.pairwise_iff_getElem]
  intro i j hi hj hij
  simp only [List.getElem_zipIdx]
  omega

theorem Numbered.sameList {l l' : ConnectionLoader} (h : Numbered l) (hsame : SameList l l') :
    Numbered l' := by
  refine ⟨by rw [hsame.data]; exact h.increasing, ?_, ?_⟩
  · rw [hsame.data, hsame.firstId, hsame.lastId]
    exact h.bounds
  · rw [hsame.firstId, hsame.lastId]
    exact h.ordered

theorem length_getConnections_le (res : RoutingResponse) :
    (getConnections res).length ≤ res.connections.length := by
  rw [getConnections, sortConnections, List.length_insertionSort]
  exact List.length_filter_le _ _

theorem Numbered.answer {l : ConnectionLoader} (h : Numbered l) (r : Request)
    (res : RoutingResponse) : Numbered (l.answer r res) := by
  have hordered := h.ordered
  rw [ConnectionLoader.answer]
  cases r.type with
  | initial =>
    refine ⟨pairwise_wrapConnections _ _, fun w hw => ?_, ?_⟩
    · have hbounds := mem_wrapConnections hw
      have hlength := length_getConnections_le res
      simp only [ConnectionLoader.initialLoaded]
      omega
    · simp only [ConnectionLoader.initialLoaded]
      omega
  | before =>
    simp only [ConnectionLoader.beforeLoaded]
    refine ⟨?_, ?_, by simp only; omega⟩
    · refine List.pairwise_append.mpr ⟨pairwise_wrapConnections _ _, h.increasing, ?_⟩
      intro w hw w' hw'
      have hnew := mem_wrapConnections hw
      have hold := h.bounds w' hw'
      omega
    · intro w hw
      rcases List.mem_append.mp hw with hw | hw
      · have hnew := mem_wrapConnections hw
        simp only
        omega
      · have hold := h.bounds w hw
        simp only
        omega
  | after =>
    simp only [ConnectionLoader.afterLoaded]
    refine ⟨?_, ?_, by simp only; omega⟩
    · refine List.pairwise_append.mpr ⟨h.increasing, pairwise_wrapConnections _ _, ?_⟩
      intro w hw w' hw'
      have hnew := mem_wrapConnections hw'
      have hold := h.bounds w hw
      omega
    · intro w hw
      rcases List.mem_append.mp hw with hw | hw
      · have hold := h.bounds w hw
        simp only
        omega
      · have hnew := mem_wrapConnections hw
        simp only
        omega

theorem numbered_loadInitial (queryTime : ℤ) :
    Numbered (JourneyListView.loadInitial queryTime).loader := by
  have hdata : (JourneyListView.loadInitial queryTime).loader.data = [] := rfl
  refine ⟨by simp [hdata], by simp [hdata], ?_⟩
  change (0 : ℤ) ≤ 0 + 1
  omega

theorem numbered_step {s : JourneyListView} (h : Numbered s.loader) (e : Event) :
    Numbered (step s e).loader := by
  cases e with
  | loadInitial queryTime => exact numbered_loadInitial queryTime
  | scrolled v => exact h.sameList (sameList_onScrolled s v)
  | response r res v v' => exact (h.answer r res).sameList (sameList_loaded s r res v v')
  | failure r motisError v v' =>
    have hfail : Numbered (s.loader.fail r) := by
      rw [ConnectionLoader.fail]
      cases r.type <;> exact ⟨h.increasing, h.bounds, h.ordered⟩
    exact hfail.sameList (sameList_failed s r motisError v v')

/-- CORRECT: in every run, each load has one request at most, for what is next to the loaded
    interval; a side that loads waits for an answer or shows an error; and the connections are
    numbered in their order. -/
theorem requests_accounted {queryTime : ℤ} {es : List Event}
    (h : Feasible system (.loadInitial queryTime) es) :
    Always system (fun s => Accounted s ∧ Numbered s.loader) (.loadInitial queryTime) es := by
  refine always_of_inductive (M := system) (fun s e hs he => ?_) ?_ h
  · exact ⟨accounted_step hs.1 he, numbered_step hs.2 e⟩
  · exact ⟨accounted_loadInitial queryTime, numbered_loadInitial queryTime⟩

/-- A query at noon, its answer, and the answer to what is before it. -/
def exampleRun : List Event :=
  let initial : Request := ⟨.initial, 43200000, 50400000, true, true, 5⟩
  let before : Request := ⟨.before, 36000000, 43140000, true, false, 0⟩
  [.response initial ⟨[⟨43500, []⟩, ⟨43300, []⟩, ⟨43400, [.canceledTrain]⟩], 43200, 50400⟩
      ⟨0, 1⟩ ⟨0, 1⟩,
    .response before ⟨[⟨40000, []⟩], 36000, 43140⟩ ⟨1, 2⟩ ⟨1, 2⟩]

theorem feasible_exampleRun : Feasible system (.loadInitial 43200000) exampleRun := by
  refine ⟨?_, ?_, trivial⟩
  · exact List.mem_singleton_self _
  · change _ ∈ (step _ _).loader.subscriptions
    decide

theorem requests_accounted_example :
    Always system (fun s => Accounted s ∧ Numbered s.loader) (.loadInitial 43200000) exampleRun :=
  requests_accounted feasible_exampleRun

end ConnectionList

end Motis.Android
