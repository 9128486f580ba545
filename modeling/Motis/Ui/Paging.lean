import Motis.Ui.ConnectionIndices

/-! Paging of the results.

    A request for more is sent with the part that is missing, and the interval of the stored request
    is extended at once:

        stored request   [──────────── answered ────────────]
        extend before    [··· sent ···|─────── answered ─────]
        response         [─────────── answered ──────────────]

    Requests are in flight until they are answered, in any order and possibly after a new search or
    a reset. Only the answer to the last request is taken. -/

namespace Motis.Ui
open Runs

/-- A request in flight, with the number of the search it belongs to. -/
structure Sent (V : Views) where
  search : ℕ
  action : SearchAction
  request : V.Request
  requestId : ℤ

structure Paging (V : Views) where
  model : Model V
  inFlight : List (Sent V) := []
  /-- The number of the most recent search. -/
  searches : ℕ := 0
  /-- The successful responses, with what they answer. -/
  responses : List (Sent V × V.Response) := []

inductive PagingEvent (V : Views) where
  | search (action : SearchAction) (req : V.Request) (fromName toName : Option String)
  | extendSearchInterval (direction : ExtendIntervalType)
  | resetAll
  | response (sent : Sent V) (response : V.Response)
  | error (sent : Sent V) (err : V.ApiError)

namespace Paging

variable {V : Views} (s : Paging V)

/-- The requests among the commands, as part of a search. -/
def sentBy (search : ℕ) (cmds : List (Cmd V)) : List (Sent V) :=
  cmds.filterMap fun
    | .send action request requestId => some ⟨search, action, request, requestId⟩
    | _ => none

/-- A message of the user. -/
def receive (msg : Msg V) : Paging V :=
  let (model, cmds) := s.model.update msg
  { s with model, inFlight := s.inFlight ++ sentBy s.searches cmds }

/-- The answer to a request in flight. -/
def deliver (sent : Sent V) (msg : Msg V) : Paging V :=
  { s with
    model := (s.model.update msg).1
    inFlight := s.inFlight.filter fun r =>
      r.search ≠ sent.search || r.requestId ≠ sent.requestId }

def step : PagingEvent V → Paging V
  | .search action req fromName toName =>
    { s with searches := s.searches + 1 }.receive (.search action req fromName toName)
  | .extendSearchInterval direction => s.receive (.extendSearchInterval direction)
  | .resetAll => s.receive .resetAll
  | .response sent response =>
    let s' := s.deliver sent (.receiveResponse sent.action sent.request sent.requestId response)
    { s' with responses := s.responses ++ [(sent, response)] }
  | .error sent err =>
    s.deliver sent (.receiveError sent.action sent.request sent.requestId err)

/-- Answered are requests in flight. -/
def Enabled : PagingEvent V → Prop
  | .response sent _ | .error sent _ => sent ∈ s.inFlight
  | _ => True

end Paging

variable {V : Views}

def paging : System (Paging V) (PagingEvent V) where
  enabled := Paging.Enabled
  step := Paging.step

/-! ### What paging promises -/

namespace Paging

variable (s : Paging V)

/-- The requests of the most recent search that are in flight. -/
def current : List (Sent V) := s.inFlight.filter fun r => r.search = s.searches

/-- The journeys of the response are in the list. -/
def Contains (response : V.Response) : Prop :=
  ∀ lj ∈ s.model.journeysToAdd [(s.model.remoteAddress, response)], lj ∈ s.model.journeys

/-- A response of the most recent search that is in the list covers the second. -/
def Covered (t : ℤ) : Prop :=
  ∃ answer ∈ s.responses, answer.1.search = s.searches ∧ s.Contains answer.2 ∧
    unixTime answer.2.intervalStart ≤ t ∧ t ≤ unixTime answer.2.intervalEnd

/-- With no request left, nothing is loading and no window is lost. -/
structure Paged : Prop where
  loading : s.current = [] →
    s.model.loading = false ∧ s.model.loadingBefore = false ∧ s.model.loadingAfter = false
  covered : s.current = [] → ∀ req, s.model.routingRequest = some req →
    ∀ t, req.getInterval.begin ≤ t → t ≤ req.getInterval.end → s.Covered t

/-- A response that changes the model answers a request of the most recent search. -/
def OnlyCurrent : PagingEvent V → Prop
  | .response sent response => (s.step (.response sent response)).model ≠ s.model →
      sent.search = s.searches
  | _ => True

/-- The number of the next request is not in flight. -/
def FreshId : Prop := ∀ r ∈ s.inFlight, r.requestId ≠ s.model.lastRequestId + 1

/-- The steps of a run that loses nothing: numbers in flight are not used again, extensions wait for
    the answer before, responses reach to what is there, and the last request does not fail. -/
def Careful : PagingEvent V → Prop
  | .search _ _ _ _ => s.FreshId
  | .extendSearchInterval _ => s.model.routingRequest ≠ none → s.FreshId ∧ s.current = []
  | .resetAll => True
  | .response sent response => sent.requestId = s.model.lastRequestId →
    match sent.action with
    | .replaceResults => True
    | .prependResults => sent.request.getInterval.end ≤ unixTime response.intervalEnd
    | .appendResults => unixTime response.intervalStart ≤ sent.request.getInterval.begin
  | .error sent _ => sent.requestId ≠ s.model.lastRequestId

/-! ### The invariant -/

/-- The numbers of what is in flight: none is zero, and the last one is of the most recent
    search. -/
structure Numbered : Prop where
  search_le : ∀ r ∈ s.inFlight, r.search ≤ s.searches
  pos : ∀ r ∈ s.inFlight, 0 < r.requestId
  last_nonneg : 0 ≤ s.model.lastRequestId
  latest : ∀ r ∈ s.inFlight, r.requestId = s.model.lastRequestId → r.search = s.searches

/-- All loading flags but those of the action are unset, and all but what the request is for is
    covered. -/
structure Pending (sent : Sent V) : Prop where
  loading : sent.action ≠ .replaceResults → s.model.loading = false
  loadingBefore : sent.action ≠ .prependResults → s.model.loadingBefore = false
  loadingAfter : sent.action ≠ .appendResults → s.model.loadingAfter = false
  stored : ∃ req, s.model.routingRequest = some req ∧
    (sent.action = .prependResults → ∀ t, sent.request.getInterval.end < t →
      t ≤ req.getInterval.end → s.Covered t) ∧
    (sent.action = .appendResults → ∀ t, req.getInterval.begin ≤ t →
      t < sent.request.getInterval.begin → s.Covered t)

inductive Phase : Prop where
  | settled (hcurrent : s.current = []) (hpaged : s.Paged)
  | reset (hrequest : s.model.routingRequest = none) (hlast : s.model.lastRequestId = 0)
      (hflags : s.model.loading = false ∧ s.model.loadingBefore = false ∧
        s.model.loadingAfter = false)
  | waiting (sent : Sent V) (hcurrent : s.current = [sent])
      (hlast : sent.requestId = s.model.lastRequestId) (hpending : s.Pending sent)

structure Sound : Prop where
  numbered : s.Numbered
  phase : s.Phase

variable {s} {s' : Paging V}

theorem Sound.paged (h : s.Sound) : s.Paged := by
  cases h.phase with
  | settled _ hpaged => exact hpaged
  | reset hrequest _ hflags =>
    refine ⟨fun _ => hflags, fun _ req hreq => ?_⟩
    rw [hrequest] at hreq
    cases hreq
  | waiting sent hcurrent _ _ =>
    have hne : s.current ≠ [] := by
      rw [hcurrent]
      exact List.cons_ne_nil _ _
    exact ⟨fun hnil => absurd hnil hne, fun hnil => absurd hnil hne⟩

/-! ### What stays covered -/

/-- Names and direction decide how the journeys of a response are shown. -/
theorem journeysToAdd_congr {model model' : Model V}
    (hdir : model'.routingRequest.map (·.searchDir) = model.routingRequest.map (·.searchDir))
    (hfrom : model'.fromName = model.fromName) (hto : model'.toName = model.toName) :
    model'.journeysToAdd = model.journeysToAdd := by
  have hswap : (model'.routingRequest.map fun r => r.searchDir == .backward) =
      model.routingRequest.map fun r => r.searchDir == .backward := by
    have := congrArg (Option.map (· == SearchDirection.backward)) hdir
    simpa only [Option.map_map, Function.comp_def] using this
  have hpatch : model'.patchConnection = model.patchConnection := by
    funext connection
    simp only [Model.patchConnection, hswap, hfrom, hto]
  funext responses
  simp only [Model.journeysToAdd, Model.patchConnections, hpatch]

theorem Covered.mono {t : ℤ} (h : s.Covered t) (hresponses : s.responses ⊆ s'.responses)
    (hsearches : s'.searches = s.searches)
    (haddress : s'.model.remoteAddress = s.model.remoteAddress)
    (hadd : s'.model.journeysToAdd = s.model.journeysToAdd)
    (hjourneys : s.model.journeys ⊆ s'.model.journeys) : s'.Covered t := by
  obtain ⟨answer, hmem, hsearch, hcontains, hstart, hend⟩ := h
  refine ⟨answer, hresponses hmem, hsearch.trans hsearches.symm, ?_, hstart, hend⟩
  intro lj hlj
  rw [hadd, haddress] at hlj
  exact hjourneys (hcontains lj hlj)

/-- What is covered does not depend on what is in flight or on what else was answered. -/
theorem Covered.of_responses {t : ℤ} (h : s.Covered t) (hmodel : s'.model = s.model)
    (hresponses : s.responses ⊆ s'.responses) (hsearches : s'.searches = s.searches) :
    s'.Covered t :=
  h.mono hresponses hsearches (by rw [hmodel]) (by rw [hmodel])
    (by rw [hmodel]; exact List.Subset.refl _)

/-! ### Sending -/

theorem Numbered.send (h : s.Numbered) (hfresh : s.FreshId) {model : Model V} {sent : Sent V}
    {searches : ℕ} (hle : s.searches ≤ searches) (hsearch : sent.search = searches)
    (hid : sent.requestId = s.model.lastRequestId + 1)
    (hlast : model.lastRequestId = s.model.lastRequestId + 1) :
    Numbered { s with model, inFlight := s.inFlight ++ [sent], searches } := by
  have hsent : ∀ {p : Sent V → Prop}, (∀ r ∈ s.inFlight, p r) → p sent →
      ∀ r ∈ s.inFlight ++ [sent], p r := by
    intro p hold hnew r hr
    rcases List.mem_append.mp hr with hr | hr
    · exact hold r hr
    · rwa [List.mem_singleton.mp hr]
  refine ⟨?_, ?_, ?_, ?_⟩
  · exact hsent (fun r hr => (h.search_le r hr).trans hle) hsearch.le
  · refine hsent h.pos ?_
    have := h.last_nonneg
    omega
  · have := h.last_nonneg
    change 0 ≤ model.lastRequestId
    omega
  · refine hsent (fun r hr hrid => ?_) fun _ => hsearch
    exact absurd (hrid.trans hlast) (hfresh r hr)

theorem current_send {model : Model V} {sent : Sent V} {searches : ℕ}
    (hsearch : sent.search = searches)
    (hnone : ∀ r ∈ s.inFlight, r.search ≠ searches) :
    current { s with model, inFlight := s.inFlight ++ [sent], searches } = [sent] := by
  have hold : s.inFlight.filter (fun r => decide (r.search = searches)) = [] := by
    rw [List.filter_eq_nil_iff]
    intro r hr hrs
    exact hnone r hr (of_decide_eq_true hrs)
  rw [current, List.filter_append, hold, List.nil_append]
  simp [hsearch]

theorem Sound.search (h : s.Sound) (action : SearchAction) (req : V.Request)
    (fromName toName : Option String) (hfresh : s.FreshId) :
    (s.step (.search action req fromName toName)).Sound := by
  let model : Model V := { s.model with
    loading := true, loadingBefore := false, loadingAfter := false
    routingRequest := some req, fromName, toName, lastRequestId := s.model.lastRequestId + 1 }
  let sent : Sent V := ⟨s.searches + 1, .replaceResults, req, s.model.lastRequestId + 1⟩
  have hstep : s.step (.search action req fromName toName) =
      { s with model, inFlight := s.inFlight ++ [sent], searches := s.searches + 1 } := rfl
  rw [hstep]
  refine ⟨h.numbered.send hfresh (Nat.le_succ _) rfl rfl rfl, .waiting sent ?_ rfl ?_⟩
  · refine current_send rfl fun r hr heq => ?_
    have := h.numbered.search_le r hr
    omega
  · exact
      { loading := fun hne => absurd rfl hne
        loadingBefore := fun _ => rfl
        loadingAfter := fun _ => rfl
        stored := ⟨req, rfl, nofun, nofun⟩ }

theorem search_ne_of_current (h : s.current = []) : ∀ r ∈ s.inFlight, r.search ≠ s.searches := by
  intro r hr heq
  exact List.filter_eq_nil_iff.mp h r hr (decide_eq_true heq)

theorem Sound.extend (h : s.Sound) (direction : ExtendIntervalType)
    (hcareful : s.Careful (.extendSearchInterval direction)) :
    (s.step (.extendSearchInterval direction)).Sound := by
  cases hrequest : s.model.routingRequest with
  | none =>
    have hstep : s.step (.extendSearchInterval direction) = s := by
      simp [step, receive, Model.update, hrequest, sentBy]
    rwa [hstep]
  | some base =>
    obtain ⟨hfresh, hcurrent⟩ := hcareful (by rw [hrequest]; exact Option.some_ne_none _)
    obtain ⟨hloading, hbefore, hafter⟩ := h.paged.loading hcurrent
    have hcovered := h.paged.covered hcurrent base hrequest
    let requests := Model.extendSearchInterval direction base
    -- the journeys, names and direction stay, so what is covered stays covered
    have hkeep : ∀ (model : Model V) (inFlight : List (Sent V)),
        model.journeys = s.model.journeys → model.remoteAddress = s.model.remoteAddress →
        model.routingRequest = some requests.2 → model.fromName = s.model.fromName →
        model.toName = s.model.toName → ∀ t, base.getInterval.begin ≤ t →
          t ≤ base.getInterval.end → Covered { s with model, inFlight } t := by
      intro model inFlight hjourneys haddress hmodel hfrom hto t hbegin hend
      refine (hcovered t hbegin hend).mono (List.Subset.refl _) rfl haddress
        (journeysToAdd_congr ?_ hfrom hto) (by rw [hjourneys]; exact List.Subset.refl _)
      rw [hmodel, hrequest]
      cases direction <;> rfl
    cases direction with
    | extendBefore =>
      let model : Model V := { s.model with
        routingRequest := some requests.2, loadingBefore := true
        lastRequestId := s.model.lastRequestId + 1 }
      let sent : Sent V := ⟨s.searches, .prependResults, requests.1, s.model.lastRequestId + 1⟩
      have hstep : s.step (.extendSearchInterval .extendBefore) =
          { s with model, inFlight := s.inFlight ++ [sent] } := by
        simp only [step, receive, Model.update, hrequest]
        rfl
      rw [hstep]
      refine ⟨h.numbered.send hfresh (le_refl _) rfl rfl rfl, .waiting sent
        (current_send rfl (search_ne_of_current hcurrent)) rfl
        { loading := fun _ => hloading
          loadingBefore := fun hne => absurd rfl hne
          loadingAfter := fun _ => hafter
          stored := ⟨requests.2, rfl, fun _ t hlo hhi => ?_, by rintro ⟨⟩⟩ }⟩
      have hsent : sent.request.getInterval.end = base.getInterval.begin - 1 := by
        simp [sent, requests, Model.extendSearchInterval]
      have hstored : requests.2.getInterval.end = base.getInterval.end := by
        simp [requests, Model.extendSearchInterval]
      exact hkeep model _ rfl rfl rfl rfl rfl t (by omega) (by omega)
    | extendAfter =>
      let model : Model V := { s.model with
        routingRequest := some requests.2, loadingAfter := true
        lastRequestId := s.model.lastRequestId + 1 }
      let sent : Sent V := ⟨s.searches, .appendResults, requests.1, s.model.lastRequestId + 1⟩
      have hstep : s.step (.extendSearchInterval .extendAfter) =
          { s with model, inFlight := s.inFlight ++ [sent] } := by
        simp only [step, receive, Model.update, hrequest]
        rfl
      rw [hstep]
      refine ⟨h.numbered.send hfresh (le_refl _) rfl rfl rfl, .waiting sent
        (current_send rfl (search_ne_of_current hcurrent)) rfl
        { loading := fun _ => hloading
          loadingBefore := fun _ => hbefore
          loadingAfter := fun hne => absurd rfl hne
          stored := ⟨requests.2, rfl, by rintro ⟨⟩, fun _ t hlo hhi => ?_⟩ }⟩
      have hsent : sent.request.getInterval.begin = base.getInterval.end + 1 := by
        simp [sent, requests, Model.extendSearchInterval]
      have hstored : requests.2.getInterval.begin = base.getInterval.begin := by
        simp [requests, Model.extendSearchInterval]
      exact hkeep model _ rfl rfl rfl rfl rfl t (by omega) (by omega)

theorem Sound.resetAll (h : s.Sound) : (s.step .resetAll).Sound := by
  have hstep : s.step .resetAll =
      { s with model := { remoteAddress := s.model.remoteAddress }, inFlight := s.inFlight ++ [] } :=
    rfl
  rw [hstep, List.append_nil]
  refine ⟨⟨h.numbered.search_le, h.numbered.pos, le_refl _, fun r hr hid => ?_⟩,
    .reset rfl rfl ⟨rfl, rfl, rfl⟩⟩
  have hpos := h.numbered.pos r hr
  change r.requestId = 0 at hid
  omega

/-! ### Answers -/

/-- The requests that are left when one is answered. -/
def left (s : Paging V) (sent : Sent V) : List (Sent V) :=
  s.inFlight.filter fun r => r.search ≠ sent.search || r.requestId ≠ sent.requestId

theorem Numbered.answer (h : s.Numbered) (sent : Sent V) {model : Model V}
    (hlast : model.lastRequestId = s.model.lastRequestId) (responses : List (Sent V × V.Response)) :
    Numbered { s with model, inFlight := s.left sent, responses } where
  search_le := fun r hr => h.search_le r (List.mem_of_mem_filter hr)
  pos := fun r hr => h.pos r (List.mem_of_mem_filter hr)
  last_nonneg := by
    change 0 ≤ model.lastRequestId
    rw [hlast]
    exact h.last_nonneg
  latest := fun r hr hid => h.latest r (List.mem_of_mem_filter hr) (hid.trans hlast)

theorem current_answer (sent : Sent V) {model : Model V} {responses : List (Sent V × V.Response)} :
    current { s with model, inFlight := s.left sent, responses } =
      s.current.filter fun r => r.search ≠ sent.search || r.requestId ≠ sent.requestId := by
  simp only [current, left, List.filter_filter, Bool.and_comm]

/-- An answer that is not taken. -/
theorem Sound.drop (h : s.Sound) {sent : Sent V}
    (hid : sent.requestId ≠ s.model.lastRequestId) {responses : List (Sent V × V.Response)}
    (hresponses : s.responses ⊆ responses) :
    Sound { s with inFlight := s.left sent, responses } := by
  refine ⟨h.numbered.answer sent rfl responses, ?_⟩
  have hcovered : ∀ t, s.Covered t →
      Covered { s with inFlight := s.left sent, responses } t :=
    fun t ht => ht.of_responses rfl hresponses rfl
  cases h.phase with
  | settled hcurrent hpaged =>
    refine .settled (by rw [current_answer, hcurrent]; rfl) ⟨fun _ => hpaged.loading hcurrent, ?_⟩
    exact fun _ req hreq t hlo hhi => hcovered t (hpaged.covered hcurrent req hreq t hlo hhi)
  | reset hrequest hlast hflags => exact .reset hrequest hlast hflags
  | waiting r hcurrent hlast hpending =>
    have hne : (decide (r.search ≠ sent.search) || decide (r.requestId ≠ sent.requestId)) = true := by
      rw [hlast, decide_eq_true (Ne.symm hid), Bool.or_true]
    obtain ⟨req, hreq, hprepend, happend⟩ := hpending.stored
    refine .waiting r ?_ hlast ⟨hpending.loading, hpending.loadingBefore, hpending.loadingAfter,
      req, hreq, ?_, ?_⟩
    · rw [current_answer, hcurrent, List.filter_singleton, hne]
      rfl
    · exact fun haction t hlo hhi => hcovered t (hprepend haction t hlo hhi)
    · exact fun haction t hlo hhi => hcovered t (happend haction t hlo hhi)

/-- The answer that is taken is the one that is waited for. -/
theorem Sound.waiting_of_last (h : s.Sound) {sent : Sent V} (hsent : sent ∈ s.inFlight)
    (hid : sent.requestId = s.model.lastRequestId) : s.current = [sent] ∧ s.Pending sent := by
  have hcurrent : sent ∈ s.current :=
    List.mem_filter.mpr ⟨hsent, decide_eq_true (h.numbered.latest sent hsent hid)⟩
  cases h.phase with
  | settled hnil _ =>
    rw [hnil] at hcurrent
    cases hcurrent
  | reset _ hlast _ =>
    have hpos := h.numbered.pos sent hsent
    omega
  | waiting r hwaiting _ hpending =>
    rw [hwaiting, List.mem_singleton] at hcurrent
    subst hcurrent
    exact ⟨hwaiting, hpending⟩

/-- An answer sets the interval, and leaves the direction. -/
theorem routingRequest_answered (model : Model V) (action : SearchAction) (response : V.Response) :
    (model.answered action [(model.remoteAddress, response)]).routingRequest =
      model.routingRequest.map (Model.updateInterval (action ≠ .appendResults)
        (action ≠ .prependResults) response) := by
  cases action <;> rfl

/-- What a taken response leaves behind, whatever it is for. -/
structure Taken (s : Paging V) (sent : Sent V) (response : V.Response) (model : Model V) : Prop where
  remoteAddress : model.remoteAddress = s.model.remoteAddress
  fromName : model.fromName = s.model.fromName
  toName : model.toName = s.model.toName
  lastRequestId : model.lastRequestId = s.model.lastRequestId
  routingRequest : model.routingRequest = s.model.routingRequest.map
    (Model.updateInterval (sent.action ≠ .appendResults) (sent.action ≠ .prependResults) response)
  added : s.model.added sent.action response ⊆ model.journeys
  old : sent.action ≠ .replaceResults → s.model.journeys ⊆ model.journeys
  loading : model.loading = if sent.action = .replaceResults then false else s.model.loading
  loadingBefore : model.loadingBefore =
    if sent.action = .prependResults then false else s.model.loadingBefore
  loadingAfter : model.loadingAfter =
    if sent.action = .appendResults then false else s.model.loadingAfter

theorem taken_update (s : Paging V) (sent : Sent V) (response : V.Response)
    (hid : sent.requestId = s.model.lastRequestId) :
    Taken s sent response (s.model.update
      (.receiveResponse sent.action sent.request sent.requestId response)).1 := by
  have hperm : ∀ l : List (LabeledJourney V), l ⊆ sortJourneys l :=
    fun l => (List.mergeSort_perm l _).symm.subset
  cases sent with
  | mk search action request requestId =>
    obtain rfl := hid
    cases action with
    | replaceResults =>
      rw [update_replace]
      exact ⟨rfl, rfl, rfl, rfl, rfl, hperm _, fun hne => absurd rfl hne, rfl, rfl, rfl⟩
    | prependResults =>
      rw [update_prepend]
      exact ⟨rfl, rfl, rfl, rfl, rfl, fun _ h => hperm _ (List.mem_append_left _ h),
        fun _ _ h => hperm _ (List.mem_append_right _ h), rfl, rfl, rfl⟩
    | appendResults =>
      rw [update_append]
      exact ⟨rfl, rfl, rfl, rfl, rfl, fun _ h => hperm _ (List.mem_append_right _ h),
        fun _ _ h => hperm _ (List.mem_append_left _ h), rfl, rfl, rfl⟩

section Taken

variable {sent : Sent V} {response : V.Response} {model : Model V}

theorem searchDir_updateInterval (req : Option V.Request) (updateStart updateEnd : Bool) :
    (req.map (Model.updateInterval updateStart updateEnd response)).map (·.searchDir) =
      req.map (·.searchDir) := by
  cases req <;> rfl

theorem Taken.journeysToAdd (h : Taken s sent response model) :
    model.journeysToAdd = s.model.journeysToAdd := by
  refine journeysToAdd_congr ?_ h.fromName h.toName
  rw [h.routingRequest, searchDir_updateInterval]

theorem added_eq (action : SearchAction) : s.model.added action response =
    s.model.journeysToAdd [(s.model.remoteAddress, response)] := by
  have hadd : (s.model.answered action [(s.model.remoteAddress, response)]).journeysToAdd =
      s.model.journeysToAdd := by
    refine journeysToAdd_congr ?_ ?_ ?_
    · rw [routingRequest_answered, searchDir_updateInterval]
    · cases action <;> rfl
    · cases action <;> rfl
  rw [Model.added, hadd]

/-- The response itself covers its interval. -/
theorem Taken.covered (h : Taken s sent response model) (hsearch : sent.search = s.searches)
    {inFlight : List (Sent V)} {t : ℤ} (hlo : unixTime response.intervalStart ≤ t)
    (hhi : t ≤ unixTime response.intervalEnd) :
    Covered { s with model, inFlight, responses := s.responses ++ [(sent, response)] } t := by
  refine ⟨(sent, response), List.mem_append_right _ (List.mem_singleton_self _), hsearch, ?_, hlo,
    hhi⟩
  intro lj hlj
  change lj ∈ model.journeysToAdd [(model.remoteAddress, response)] at hlj
  rw [h.journeysToAdd, h.remoteAddress, ← added_eq sent.action] at hlj
  exact h.added hlj

/-- What was covered still is when the results are extended. -/
theorem Taken.keeps (h : Taken s sent response model) (haction : sent.action ≠ .replaceResults)
    {inFlight : List (Sent V)} {t : ℤ} (ht : s.Covered t) :
    Covered { s with model, inFlight, responses := s.responses ++ [(sent, response)] } t :=
  ht.mono (List.subset_append_left _ _) rfl h.remoteAddress h.journeysToAdd (h.old haction)

end Taken

theorem Sound.response (h : s.Sound) {sent : Sent V} {response : V.Response}
    (hsent : sent ∈ s.inFlight) (hcareful : s.Careful (.response sent response)) :
    (s.step (.response sent response)).Sound := by
  by_cases hid : sent.requestId = s.model.lastRequestId
  · obtain ⟨hcurrent, hpending⟩ := h.waiting_of_last hsent hid
    have hsearch := h.numbered.latest sent hsent hid
    have htaken := taken_update s sent response hid
    generalize hmodel : (s.model.update
      (.receiveResponse sent.action sent.request sent.requestId response)).1 = model at htaken
    have hstep : s.step (.response sent response) =
        { s with model, inFlight := s.left sent, responses := s.responses ++ [(sent, response)] } := by
      simp only [step, deliver, hmodel]
      rfl
    rw [hstep]
    refine ⟨h.numbered.answer sent htaken.lastRequestId _, .settled ?_ ⟨fun _ => ?_, ?_⟩⟩
    · rw [current_answer, hcurrent]
      simp
    · change model.loading = false ∧ model.loadingBefore = false ∧ model.loadingAfter = false
      rw [htaken.loading, htaken.loadingBefore, htaken.loadingAfter]
      refine ⟨?_, ?_, ?_⟩
      · split
        · rfl
        · exact hpending.loading ‹_›
      · split
        · rfl
        · exact hpending.loadingBefore ‹_›
      · split
        · rfl
        · exact hpending.loadingAfter ‹_›
    · obtain ⟨req, hreq, hprepend, happend⟩ := hpending.stored
      intro _ req' hreq' t hlo hhi
      change model.routingRequest = some req' at hreq'
      rw [htaken.routingRequest, hreq, Option.map_some, Option.some_inj] at hreq'
      rw [← hreq', Model.updateInterval,
        IntermodalRoutingRequest.getInterval_setInterval] at hlo hhi
      have hreach := hcareful hid
      cases haction : sent.action with
      | replaceResults =>
        rw [haction] at hlo hhi
        exact htaken.covered hsearch hlo hhi
      | prependResults =>
        rw [haction] at hlo hhi hreach
        by_cases hsent : t ≤ sent.request.getInterval.end
        · exact htaken.covered hsearch hlo (hsent.trans hreach)
        · exact htaken.keeps (by rw [haction]; nofun) (hprepend haction t (not_le.mp hsent) hhi)
      | appendResults =>
        rw [haction] at hlo hhi hreach
        by_cases hsent : sent.request.getInterval.begin ≤ t
        · exact htaken.covered hsearch (hreach.trans hsent) hhi
        · exact htaken.keeps (by rw [haction]; nofun) (happend haction t hlo (not_le.mp hsent))
  · have hstep : s.step (.response sent response) =
        { s with inFlight := s.left sent, responses := s.responses ++ [(sent, response)] } := by
      simp only [step, deliver, update_stale hid]
      rfl
    rw [hstep]
    exact h.drop hid (List.subset_append_left _ _)

theorem Sound.error (h : s.Sound) {sent : Sent V} {err : V.ApiError}
    (hid : sent.requestId ≠ s.model.lastRequestId) : (s.step (.error sent err)).Sound := by
  have hstep : s.step (.error sent err) = { s with inFlight := s.left sent } := by
    simp only [step, deliver, Model.update, if_neg hid]
    rfl
  rw [hstep]
  exact h.drop hid (List.Subset.refl _)

/-! ### Runs -/

theorem Sound.step (h : s.Sound) (e : PagingEvent V) (henabled : s.Enabled e)
    (hcareful : s.Careful e) : (s.step e).Sound := by
  cases e with
  | search action req fromName toName => exact h.search action req fromName toName hcareful
  | extendSearchInterval direction => exact h.extend direction hcareful
  | resetAll => exact h.resetAll
  | response sent response => exact h.response henabled hcareful
  | error sent err => exact h.error hcareful

theorem Sound.onlyCurrent (h : s.Sound) (e : PagingEvent V) (henabled : s.Enabled e) :
    s.OnlyCurrent e := by
  cases e with
  | response sent response =>
    intro hchanged
    refine h.numbered.latest sent henabled ?_
    by_contra hid
    refine hchanged ?_
    simp only [Paging.step, deliver, update_stale hid]
  | _ => trivial

/-- The widget that has just been opened. -/
def opened (remoteAddress : String) : Paging V := { model := init remoteAddress }

theorem sound_opened (remoteAddress : String) : (opened remoteAddress : Paging V).Sound := by
  have hnone : ∀ r : Sent V, r ∉ (opened remoteAddress : Paging V).inFlight :=
    fun _ => List.not_mem_nil
  exact
    { numbered :=
        { search_le := fun r hr => absurd hr (hnone r)
          pos := fun r hr => absurd hr (hnone r)
          last_nonneg := le_refl _
          latest := fun r hr => absurd hr (hnone r) }
      phase := .reset rfl rfl ⟨rfl, rfl, rfl⟩ }

end Paging

open Paging

/-- CORRECT: in a run of careful steps only responses of the most recent search change the model,
    and when all of them are there nothing is loading and no window is lost. -/
theorem paged_of_careful (remoteAddress : String) (es : List (PagingEvent V))
    (hrun : Feasible paging (opened remoteAddress) es)
    (hcareful : Each paging Careful (opened remoteAddress) es) :
    Each paging OnlyCurrent (opened remoteAddress) es ∧
      Always paging Paged (opened remoteAddress) es := by
  have hstep : ∀ (s : Paging V) (e : PagingEvent V), s.Sound → s.Enabled e → s.Careful e →
      (s.step e).Sound := fun _ e h henabled hcareful => h.step e henabled hcareful
  refine ⟨each_of_invariant hstep (fun _ e h henabled _ => h.onlyCurrent e henabled)
    (sound_opened remoteAddress) hrun hcareful, ?_⟩
  exact (always_of_invariant hstep (sound_opened remoteAddress) hrun hcareful).imp
    fun _ h => h.paged

/-! A search for departures, and its extensions. -/

def firstRequest : Sent plainViews := ⟨1, .replaceResults, searchRequest .forward, 1⟩

def extendedBefore : IntermodalRoutingRequest Unit × IntermodalRoutingRequest Unit :=
  Model.extendSearchInterval .extendBefore (V := plainViews) (searchRequest .forward)

def extendedAfter : IntermodalRoutingRequest Unit × IntermodalRoutingRequest Unit :=
  Model.extendSearchInterval .extendAfter (V := plainViews) extendedBefore.2

def earlierRequest : Sent plainViews := ⟨1, .prependResults, extendedBefore.1, 2⟩

def laterRequest : Sent plainViews := ⟨1, .appendResults, extendedAfter.1, 3⟩

def answeredSearch : List (PagingEvent plainViews) :=
  [.search .replaceResults (searchRequest .forward) none none,
    .response firstRequest ⟨[ride 37800 39600], 36000000, 43200000⟩]

theorem paged_answeredSearch :
    Each paging OnlyCurrent (opened "") answeredSearch ∧
      Always paging Paged (opened "") answeredSearch :=
  paged_of_careful "" answeredSearch ⟨trivial, .head _, trivial⟩
    ⟨fun _ hr => absurd hr List.not_mem_nil, fun _ => trivial, trivial⟩

/-- Both ends are extended, and the response for the earlier one is dropped. -/
def extendedTwice : List (PagingEvent plainViews) :=
  answeredSearch ++
    [.extendSearchInterval .extendBefore, .extendSearchInterval .extendAfter,
      .response earlierRequest ⟨[ride 30600 32400], 28800000, 35999000⟩,
      .response laterRequest ⟨[ride 45000 46800], 43201000, 50400000⟩]

theorem window_lost :
    Feasible paging (opened "") extendedTwice ∧ ¬ Always paging Paged (opened "") extendedTwice := by
  refine ⟨⟨trivial, .head _, trivial, trivial, .head _, .head _, trivial⟩, fun h => ?_⟩
  have hlast := h.last
  have hnone : (exec paging (opened "") extendedTwice).current = [] := by decide
  have hloading := (hlast.loading hnone).2.1
  cases hloading

end Motis.Ui
