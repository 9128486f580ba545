import Motis.Lib.Runs
import Motis.Ui.ConnectionManager

/-! Which call the shown geometry belongs to.

    The trip data is stored before the number of the answer is looked at, and a call without trips
    leaves the number of an earlier request in place:

        call 1 ──▶ trips₁                     call 1 ──▶ trips₁
        call 2 ──▶ trips₂, walk               call 2     no trips
        trips₂ ✓ complete                     trips₁ ✓ number of the last request
        trips₁   stored
        walk     shown with trips₁

    Everything else keeps to the last call. -/

namespace Motis.Ui.ConnectionManager
open Runs

/-! ### Runs -/

inductive ManagerEvent where
  | setConnections (conns : List Connection)
  | tripsReceived (callId call : ℕ) (content : TripsContent)
  | tripsFailed (callId call : ℕ)
  | walkReceived (callId call : ℕ) (w : WalkData) (data : WalkContent)
  | walkFailed (callId call : ℕ) (w : WalkData)
  | resetPPRCache
  /-- A request of another module. -/
  | sendRequest

namespace Manager

variable (m : Manager)

/-- A request is answered once. -/
def answered (sent : Sent) : Manager := { m with inFlight := m.inFlight.erase sent }

def step : ManagerEvent → Manager
  | .setConnections conns => m.setConnections conns
  | .tripsReceived callId call content =>
    (m.answered (.trips callId call)).tripDataReceived callId call content
  | .tripsFailed callId call => m.answered (.trips callId call)
  | .walkReceived callId call w data =>
    (m.answered (.walk callId call w)).walkDataReceived call w data
  | .walkFailed callId call w => (m.answered (.walk callId call w)).walkFailed call w
  | .resetPPRCache => m.resetPPRCache
  | .sendRequest => { m with lastCallId := m.lastCallId + 1 }

def Enabled : ManagerEvent → Prop
  | .tripsReceived callId call _ | .tripsFailed callId call => .trips callId call ∈ m.inFlight
  | .walkReceived callId call w _ | .walkFailed callId call w => .walk callId call w ∈ m.inFlight
  | _ => True

/-- Of another call, trips come only while those of the last call are waited for; and a call
    without trips has no walks. -/
def Safe : ManagerEvent → Prop
  | .setConnections conns => tripsOf conns = [] → walksOf conns = []
  | .tripsReceived _ call _ => call = m.calls.length ∨ m.tripsComplete = false
  | _ => True

end Manager

def manager : System Manager ManagerEvent where
  enabled := Manager.Enabled
  step := Manager.step

instance (m : Manager) (e : ManagerEvent) : Decidable (manager.enabled m e) :=
  match e with
  | .tripsReceived .. | .tripsFailed .. | .walkReceived .. | .walkFailed .. =>
    inferInstanceAs (Decidable (_ ∈ m.inFlight))
  | .setConnections _ | .resetPPRCache | .sendRequest => .isTrue trivial

/-! ### What is shown -/

/-- No trip data without trips, and otherwise the answer to the request of the last call. -/
def AnswersCall (calls : List (List Connection)) (connections : List Connection) :
    Option TripData → Prop
  | none => tripsOf connections = []
  | some tripData => tripsOf connections ≠ [] ∧ tripData.call = calls.length

/-- The walks of the connections have entries, and no others. -/
def HasWalks (connections : List Connection) (walkData : List WalkData) : Prop :=
  ∀ key, key ∈ walkData.map WalkData.key ↔ ∃ walk ∈ walksOf connections, walkId walk.2 = key

/-- Connections, trips and walks are those of the last call. -/
structure DataSet.Current (d : DataSet) : Prop where
  latest : d.calls.getLast? = some d.connections
  trips : AnswersCall d.calls d.connections d.tripData
  walks : HasWalks d.connections d.walkData

/-- What is shown belongs to the last call, and so do the trips that have come for it. -/
structure Manager.Current (m : Manager) : Prop where
  shown : ∀ d ∈ m.shown, d.Current
  trips : m.tripsComplete = true → AnswersCall m.calls m.connections m.tripData

/-! ### The state after a call -/

namespace Manager

/-- The number of the last request is that of the last call, if this has trips. -/
def TripsInFlight (m : Manager) : Prop :=
  ∀ callId call, .trips callId call ∈ m.inFlight → callId ≤ m.lastCallId ∧ call ≤ m.calls.length ∧
    (m.lastTripsRequest = some callId → tripsOf m.connections ≠ [] → call = m.calls.length) ∧
    (call = m.calls.length → m.lastTripsRequest = some callId ∧ tripsOf m.connections ≠ [])

structure Loaded (m : Manager) : Prop where
  latest : m.calls.getLast? = some m.connections
  trips : m.tripsComplete = true → AnswersCall m.calls m.connections m.tripData
  complete : tripsOf m.connections = [] → m.tripsComplete = true
  walks : HasWalks m.connections m.walkData

structure Sound (m : Manager) : Prop where
  shown : ∀ d ∈ m.shown, d.Current
  inFlight : m.TripsInFlight
  loaded : m.calls = [] ∧ m.inFlight = [] ∧ m.tripsComplete = false ∨ m.Loaded

variable {m : Manager}

theorem showConnections_eq (m : Manager) : m.showConnections = { m with shown := m.shown ++
    if m.dataIsComplete then [⟨m.calls, m.connections, m.tripData, m.walkData⟩] else [] } := by
  rw [showConnections]
  split
  · rfl
  · rw [List.append_nil]

theorem Sound.showConnections (h : m.Sound) : m.showConnections.Sound := by
  rw [showConnections_eq]
  refine ⟨fun d hd => ?_, h.inFlight, ?_⟩
  · rcases List.mem_append.mp hd with hd | hd
    · exact h.shown d hd
    · split at hd
      · rename_i hcomplete
        obtain rfl := List.mem_singleton.mp hd
        rw [dataIsComplete, Bool.and_eq_true] at hcomplete
        rcases h.loaded with ⟨-, -, hfalse⟩ | hloaded
        · rw [hfalse] at hcomplete
          exact absurd hcomplete.1 Bool.false_ne_true
        · exact ⟨hloaded.latest, hloaded.trips hcomplete.1, hloaded.walks⟩
      · exact absurd hd List.not_mem_nil
  · rcases h.loaded with hnone | hloaded
    · exact .inl hnone
    · exact .inr ⟨hloaded.latest, hloaded.trips, hloaded.complete, hloaded.walks⟩

/-! ### Walks -/

theorem mem_keys_addWalk {walkData : List WalkData} {c : Connection} {walk : Walk} {key : WalkKey} :
    key ∈ (addWalk walkData c walk).map WalkData.key ↔
      key ∈ walkData.map WalkData.key ∨ key = walkId walk := by
  have hkeep : ∀ l : List WalkData, (l.map fun w => if w.key = walkId walk then
      { w with
        connectionIds := w.connectionIds ++ [c.id]
        polyline := w.polyline <|> walk.polyline } else w).map WalkData.key =
      l.map WalkData.key := by
    intro l
    rw [List.map_map]
    refine List.map_congr_left fun w _ => ?_
    rw [Function.comp_apply]
    split <;> rfl
  rw [addWalk, hkeep]
  split
  · rename_i hany
    obtain ⟨w, hw, hkey⟩ := List.any_eq_true.mp hany
    refine ⟨.inl, fun h => h.elim id fun h => ?_⟩
    rw [h, ← of_decide_eq_true hkey]
    exact List.mem_map_of_mem hw
  · rw [List.map_append, List.mem_append, List.map_singleton, List.mem_singleton]
    rfl

theorem mem_keys_walks {l : List (Connection × Walk)} {walkData : List WalkData} {key : WalkKey} :
    key ∈ (l.foldl (fun walkData (c, walk) => addWalk walkData c walk) walkData).map WalkData.key ↔
      key ∈ walkData.map WalkData.key ∨ ∃ walk ∈ l, walkId walk.2 = key := by
  induction l generalizing walkData with
  | nil => simp
  | cons walk l ih =>
    have hcons : (∃ w ∈ walk :: l, walkId w.2 = key) ↔
        key = walkId walk.2 ∨ ∃ w ∈ l, walkId w.2 = key := by
      simp [eq_comm]
    rw [List.foldl_cons, ih, mem_keys_addWalk, hcons, or_assoc]

/-- Only requests for walks are sent. -/
structure SendsWalks (m m' : Manager) : Prop where
  eq : ∃ sent lastCallId, m' = { m with lastCallId, inFlight := m.inFlight ++ sent } ∧
    m.lastCallId ≤ lastCallId ∧ ∀ callId call, .trips callId call ∉ sent

theorem SendsWalks.refl (m : Manager) : SendsWalks m m :=
  ⟨[], m.lastCallId, by rw [List.append_nil], le_refl _, fun _ _ => List.not_mem_nil⟩

theorem SendsWalks.trans {m₁ m₂ m₃ : Manager} (h : SendsWalks m₁ m₂) (h' : SendsWalks m₂ m₃) :
    SendsWalks m₁ m₃ := by
  obtain ⟨sent, lastCallId, rfl, hle, hsent⟩ := h.eq
  obtain ⟨sent', lastCallId', rfl, hle', hsent'⟩ := h'.eq
  refine ⟨sent ++ sent', lastCallId', by rw [List.append_assoc], hle.trans hle', ?_⟩
  intro callId call hmem
  rcases List.mem_append.mp hmem with hmem | hmem
  · exact hsent callId call hmem
  · exact hsent' callId call hmem

theorem sendsWalks_sendWalk (m : Manager) (w : WalkData) : SendsWalks m (m.sendWalk w) := by
  refine ⟨[.walk (m.lastCallId + 1) m.calls.length w], m.lastCallId + 1, rfl, Nat.le_succ _, ?_⟩
  intro callId call hmem
  cases List.mem_singleton.mp hmem

theorem requestWalkSegment_spec (m : Manager) (w : WalkData) :
    SendsWalks m (m.requestWalkSegment w).1 ∧ (m.requestWalkSegment w).2.key = w.key := by
  rw [requestWalkSegment]
  dsimp only
  split
  · exact ⟨.refl m, rfl⟩
  · exact ⟨sendsWalks_sendWalk m _, rfl⟩

theorem requestWalk_spec (r : Manager × List WalkData) (w : WalkData) :
    SendsWalks r.1 (requestWalk r w).1 ∧
      (requestWalk r w).2.map WalkData.key = r.2.map WalkData.key ++ [w.key] := by
  rw [requestWalk]
  dsimp only
  split
  · exact ⟨.refl _, by rw [List.map_append]; rfl⟩
  · obtain ⟨hsends, hkey⟩ :=
      requestWalkSegment_spec r.1 { w with minCId := minCIdOf w.connectionIds }
    exact ⟨hsends, by rw [List.map_append, List.map_singleton, hkey]; rfl⟩

theorem foldl_requestWalk_spec (l : List WalkData) (r : Manager × List WalkData) :
    SendsWalks r.1 (l.foldl requestWalk r).1 ∧
      (l.foldl requestWalk r).2.map WalkData.key = r.2.map WalkData.key ++ l.map WalkData.key := by
  induction l generalizing r with
  | nil => exact ⟨.refl _, (List.append_nil _).symm⟩
  | cons w l ih =>
    obtain ⟨hsends, hkeys⟩ := requestWalk_spec r w
    obtain ⟨hsends', hkeys'⟩ := ih (requestWalk r w)
    refine ⟨hsends.trans hsends', ?_⟩
    rw [List.foldl_cons, hkeys', hkeys, List.append_assoc, List.map_cons, List.singleton_append]

/-- The walks are collected and asked for, and everything else stays. -/
theorem requestWalks_spec (m : Manager) : ∃ m' walkData, SendsWalks m m' ∧
    HasWalks m.connections walkData ∧ m.requestWalks = { m' with walkData }.showConnections := by
  let walkData := (walksOf m.connections).foldl (fun walkData (c, walk) => addWalk walkData c walk) []
  obtain ⟨hsends, hkeys⟩ := foldl_requestWalk_spec walkData (m, [])
  refine ⟨_, _, hsends, fun key => ?_, rfl⟩
  rw [hkeys, List.map_nil, List.nil_append, mem_keys_walks]
  simp

theorem TripsInFlight.sendsWalks {m' : Manager} (h : m.TripsInFlight) (hsends : SendsWalks m m') :
    m'.TripsInFlight := by
  obtain ⟨sent, lastCallId, rfl, hle, hsent⟩ := hsends.eq
  intro callId call hmem
  rcases List.mem_append.mp hmem with hmem | hmem
  · obtain ⟨hid, hrest⟩ := h callId call hmem
    exact ⟨hid.trans hle, hrest⟩
  · exact absurd hmem (hsent callId call)

/-! ### A call -/

/-- The state of a new call, before its requests. -/
def called (m : Manager) (conns : List Connection) : Manager :=
  { m with
    connections := conns
    tripData := none
    walkData := []
    tripsComplete := false
    calls := m.calls ++ [conns] }

/-- The trips are requested, or there are none. -/
structure Requested (m : Manager) : Prop where
  shown : ∀ d ∈ m.shown, d.Current
  inFlight : m.TripsInFlight
  latest : m.calls.getLast? = some m.connections
  trips : m.tripsComplete = true → AnswersCall m.calls m.connections m.tripData
  complete : tripsOf m.connections = [] → m.tripsComplete = true

theorem requested_called (h : m.Sound) {conns : List Connection}
    (hsafe : m.Safe (.setConnections conns)) : (m.called conns).requestTrips.Requested := by
  have hlatest : (m.calls ++ [conns]).getLast? = some conns := List.getLast?_concat
  rw [requestTrips]
  split
  · rename_i hnone
    have hnone : tripsOf conns = [] := hnone
    -- nothing is asked for: the call is shown before its walks are collected
    have hshow : { m.called conns with tripsComplete := true }.showConnections =
        { m.called conns with
          tripsComplete := true
          shown := m.shown ++ [⟨m.calls ++ [conns], conns, none, []⟩] } := by
      rw [showConnections_eq]
      rfl
    rw [hshow]
    refine ⟨fun d hd => ?_, fun callId call hmem => ?_, hlatest, fun _ => hnone, fun _ => rfl⟩
    · rcases List.mem_append.mp hd with hd | hd
      · exact h.shown d hd
      · obtain rfl := List.mem_singleton.mp hd
        refine ⟨hlatest, hnone, fun key => ?_⟩
        rw [hsafe hnone]
        simp
    · obtain ⟨hid, hcall, -⟩ := h.inFlight callId call hmem
      have hlength : (m.calls ++ [conns]).length = m.calls.length + 1 := List.length_append
      refine ⟨hid, ?_, fun _ htrips => absurd hnone htrips, fun heq => ?_⟩
      · exact hcall.trans (hlength ▸ Nat.le_succ _)
      · have heq : call = (m.calls ++ [conns]).length := heq
        omega
  · rename_i htrips
    have htrips : tripsOf conns ≠ [] := htrips
    refine ⟨h.shown, fun callId call hmem => ?_, hlatest, fun hfalse => absurd hfalse Bool.false_ne_true,
      fun hnone => absurd hnone htrips⟩
    have hlength : (m.calls ++ [conns]).length = m.calls.length + 1 := List.length_append
    rcases List.mem_append.mp hmem with hmem | hmem
    · obtain ⟨hid, hcall, -⟩ := h.inFlight callId call hmem
      refine ⟨hid.trans (Nat.le_succ _), hcall.trans (hlength ▸ Nat.le_succ _), fun hlast => ?_,
        fun heq => ?_⟩
      · have hlast : m.lastCallId + 1 = callId := Option.some.inj hlast
        omega
      · have heq : call = (m.calls ++ [conns]).length := heq
        omega
    · cases List.mem_singleton.mp hmem
      exact ⟨le_refl _, le_refl _, fun _ _ => rfl, fun _ => ⟨rfl, htrips⟩⟩

theorem Requested.requestWalks (h : m.Requested) : m.requestWalks.Sound := by
  obtain ⟨m', walkData, hsends, hwalks, heq⟩ := m.requestWalks_spec
  have hinFlight := h.inFlight.sendsWalks hsends
  obtain ⟨sent, lastCallId, rfl, -, -⟩ := hsends.eq
  rw [heq]
  exact Sound.showConnections
    ⟨h.shown, hinFlight, .inr ⟨h.latest, h.trips, h.complete, hwalks⟩⟩

theorem Sound.setConnections (h : m.Sound) {conns : List Connection}
    (hsafe : m.Safe (.setConnections conns)) : (m.setConnections conns).Sound :=
  (requested_called h hsafe).requestWalks

/-! ### Answers -/

theorem Sound.answered (h : m.Sound) (sent : Sent) : (m.answered sent).Sound := by
  refine ⟨h.shown, fun callId call hmem => h.inFlight callId call (List.mem_of_mem_erase hmem), ?_⟩
  rcases h.loaded with ⟨hcalls, hnone, hfalse⟩ | hloaded
  · refine .inl ⟨hcalls, ?_, hfalse⟩
    rw [Manager.answered, hnone]
    rfl
  · exact .inr ⟨hloaded.latest, hloaded.trips, hloaded.complete, hloaded.walks⟩

/-- An answer that is taken as that of the last request belongs to the last call, and another one
    comes before the answer that replaces it. -/
theorem Sound.tripDataReceived (h : m.Sound) {callId call : ℕ} {content : TripsContent}
    (hsent : .trips callId call ∈ m.inFlight) (hsafe : m.Safe (.tripsReceived callId call content)) :
    ((m.answered (.trips callId call)).tripDataReceived callId call content).Sound := by
  obtain ⟨-, -, hlast, hcurrent⟩ := h.inFlight callId call hsent
  have hanswered := h.answered (.trips callId call)
  have hloaded : m.Loaded := by
    rcases h.loaded with ⟨-, hnone, -⟩ | hloaded
    · rw [hnone] at hsent
      exact absurd hsent List.not_mem_nil
    · exact hloaded
  rw [Manager.tripDataReceived]
  dsimp only
  split
  · rename_i hother
    have hother : some callId ≠ m.lastTripsRequest := hother
    refine ⟨hanswered.shown, hanswered.inFlight, .inr ⟨hloaded.latest, fun htrue => ?_,
      hloaded.complete, hloaded.walks⟩⟩
    have htrue : m.tripsComplete = true := htrue
    rcases hsafe with heq | hfalse
    · exact absurd (hcurrent heq).1.symm hother
    · exact absurd (htrue.symm.trans hfalse) (by decide)
  · rename_i hsame
    have hsame : m.lastTripsRequest = some callId := (not_not.mp hsame).symm
    have htrips : tripsOf m.connections ≠ [] := by
      intro hnone
      rcases hsafe with heq | hfalse
      · exact (hcurrent heq).2 hnone
      · exact absurd ((hloaded.complete hnone).symm.trans hfalse) (by decide)
    exact Sound.showConnections ⟨hanswered.shown, hanswered.inFlight, .inr ⟨hloaded.latest,
      fun _ => ⟨htrips, hlast hsame htrips⟩, fun _ => rfl, hloaded.walks⟩⟩

theorem Sound.setWalk (h : m.Sound) (call : ℕ) (w : WalkData) {f : WalkData → WalkData}
    (hf : ∀ w, (f w).key = w.key) : (m.setWalk call w f).Sound := by
  rw [Manager.setWalk]
  split
  · have hkeys : (m.walkData.map fun w' => if w'.id = w.id then f w' else w').map WalkData.key =
        m.walkData.map WalkData.key := by
      rw [List.map_map]
      refine List.map_congr_left fun w' _ => ?_
      rw [Function.comp_apply]
      split
      · exact hf w'
      · rfl
    refine ⟨h.shown, h.inFlight, ?_⟩
    rcases h.loaded with hnone | hloaded
    · exact .inl hnone
    · refine .inr ⟨hloaded.latest, hloaded.trips, hloaded.complete, fun key => ?_⟩
      have hwalks := hloaded.walks key
      rw [← hkeys] at hwalks
      exact hwalks
  · exact h

/-- Caches do not matter. -/
theorem Sound.setCaches (h : m.Sound) (osrmCache pprCache : List (WalkKey × Coordinates)) :
    Sound { m with osrmCache, pprCache } := by
  refine ⟨h.shown, h.inFlight, ?_⟩
  rcases h.loaded with hnone | hloaded
  · exact .inl hnone
  · exact .inr ⟨hloaded.latest, hloaded.trips, hloaded.complete, hloaded.walks⟩

theorem Sound.walkDataReceived (h : m.Sound) (call : ℕ) (w : WalkData) (data : WalkContent) :
    (m.walkDataReceived call w data).Sound := by
  rw [Manager.walkDataReceived]
  split
  · refine Sound.showConnections ?_
    rw [handlePPRResponse]
    split
    · exact h.setWalk call w fun _ => rfl
    · exact (h.setCaches m.osrmCache _).setWalk call w fun _ => rfl
  · exact Sound.showConnections ((h.setCaches _ m.pprCache).setWalk call w fun _ => rfl)
  · exact h.showConnections

theorem Sound.step (h : m.Sound) {e : ManagerEvent} (henabled : m.Enabled e) (hsafe : m.Safe e) :
    (m.step e).Sound := by
  cases e with
  | setConnections conns => exact h.setConnections hsafe
  | tripsReceived callId call content => exact h.tripDataReceived henabled hsafe
  | tripsFailed callId call => exact h.answered _
  | walkReceived callId call w data => exact (h.answered _).walkDataReceived call w data
  | walkFailed callId call w =>
    have hanswered := h.answered (.walk callId call w)
    exact (hanswered.setWalk call w (f := fun w => { w with error := true })
      fun _ => rfl).showConnections
  | resetPPRCache => exact h.setCaches m.osrmCache []
  | sendRequest =>
    refine ⟨h.shown, fun callId call hmem => ?_, ?_⟩
    · obtain ⟨hid, hrest⟩ := h.inFlight callId call hmem
      exact ⟨hid.trans (Nat.le_succ _), hrest⟩
    · rcases h.loaded with hnone | hloaded
      · exact .inl hnone
      · exact .inr ⟨hloaded.latest, hloaded.trips, hloaded.complete, hloaded.walks⟩

theorem sound_init : Sound {} where
  shown _ hd := absurd hd List.not_mem_nil
  inFlight _ _ hmem := absurd hmem List.not_mem_nil
  loaded := .inl ⟨rfl, rfl, rfl⟩

end Manager

namespace Manager

variable {m : Manager}

theorem Sound.current (h : m.Sound) : m.Current := by
  refine ⟨h.shown, fun hcomplete => ?_⟩
  rcases h.loaded with ⟨-, -, hfalse⟩ | hloaded
  · exact absurd (hcomplete.symm.trans hfalse) (by decide)
  · exact hloaded.trips hcomplete

/-- After the trips of the last call, those of another one replace them. -/
theorem not_answersCall_of_stale {callId call : ℕ} (content : TripsContent)
    (hcall : call ≠ m.calls.length) (hcomplete : m.tripsComplete = true) :
    ¬(m.step (.tripsReceived callId call content)).Current := by
  have hstep : ∃ content' shown, m.step (.tripsReceived callId call content) =
      { m.answered (.trips callId call) with
        tripData := some ⟨call, content'⟩, tripsComplete := true, shown } := by
    rw [Manager.step, tripDataReceived]
    dsimp only
    split
    · refine ⟨content, m.shown, ?_⟩
      rw [← hcomplete]
      rfl
    · exact ⟨_, _, showConnections_eq _⟩
  obtain ⟨content', shown, hstep⟩ := hstep
  rw [hstep]
  exact fun h => hcall (h.trips rfl).2

/-- Walks without trips are shown before they are collected. -/
theorem mem_shown_setConnections {conns : List Connection} (hnone : tripsOf conns = []) :
    ⟨m.calls ++ [conns], conns, none, []⟩ ∈ (m.setConnections conns).shown := by
  obtain ⟨m', walkData, hsends, -, heq⟩ := (m.called conns).requestTrips.requestWalks_spec
  have hset : m.setConnections conns = { m' with walkData }.showConnections := heq
  obtain ⟨sent, lastCallId, rfl, -, -⟩ := hsends.eq
  rw [hset, showConnections_eq]
  refine List.mem_append_left _ ?_
  have hrequest : (m.called conns).requestTrips =
      { m.called conns with tripsComplete := true }.showConnections := if_pos hnone
  rw [hrequest, showConnections_eq]
  exact List.mem_append_right _ (List.mem_singleton_self _)

/-- A step to a state in order is a safe one. -/
theorem safe_of_current {e : ManagerEvent} (h : (m.step e).Current) : m.Safe e := by
  cases e with
  | setConnections conns =>
    intro hnone
    have hwalks := (h.shown _ (mem_shown_setConnections hnone)).walks
    refine List.eq_nil_iff_forall_not_mem.mpr fun walk hwalk => ?_
    exact absurd ((hwalks (walkId walk.2)).mpr ⟨walk, hwalk, rfl⟩) List.not_mem_nil
  | tripsReceived callId call content =>
    by_contra hunsafe
    obtain ⟨hcall, hcomplete⟩ := not_or.mp hunsafe
    exact not_answersCall_of_stale content hcall (by simpa using hcomplete) h
  | _ => trivial

end Manager

/-- Always the last call is shown, and its trips are kept, exactly when the trips of other calls
    come only while those of the last one are waited for, and no call has walks without trips. -/
theorem always_current_iff {es : List ManagerEvent} (hrun : Feasible manager {} es) :
    Always manager Manager.Current {} es ↔ Each manager Manager.Safe {} es :=
  always_iff_each (fun _ _ h henabled hsafe => Manager.Sound.step h henabled hsafe)
    (fun _ h => h.current) (fun _ _ _ _ h => Manager.safe_of_current h) Manager.sound_init hrun

/-! ### Two calls -/

def ic2113 : Train := ⟨[⟨"8000068", "8000105"⟩], ⟨"8000068", 2113, 3600, "8000105", 4800, ""⟩⟩

def ice571 : Train := ⟨[⟨"8000068", "8000105"⟩], ⟨"8000068", 571, 5400, "8000105", 6300, ""⟩⟩

def toStation : Walk :=
  ⟨⟨"start", "START", 0, 0⟩, ⟨"8000068", "Darmstadt Hbf", 1, 1⟩, "foot", 5, 0, none⟩

/-- The entry of the walk, as it is asked for. -/
def toStationData : WalkData :=
  { id := 0, walk := toStation, connectionIds := [1], polyline := none, error := false
    minCId := some 1, routerType := some .ppr }

theorem always_current_iff_oneCall :
    Always manager Manager.Current {} [.setConnections [⟨1, [ice571], [toStation]⟩],
      .tripsReceived 1 1 ⟨[], []⟩, .walkFailed 2 1 toStationData] ↔
    Each manager Manager.Safe {} [.setConnections [⟨1, [ice571], [toStation]⟩],
      .tripsReceived 1 1 ⟨[], []⟩, .walkFailed 2 1 toStationData] :=
  always_current_iff ⟨trivial, by decide, by decide, trivial⟩

/-- The trips of the first call come after those of the second, and are shown with its walk. -/
theorem not_current_twoCalls : ¬∀ es : List ManagerEvent, Feasible manager {} es →
    Always manager Manager.Current {} es := by
  intro h
  let es : List ManagerEvent := [.setConnections [⟨0, [ic2113], []⟩],
    .setConnections [⟨1, [ice571], [toStation]⟩], .tripsReceived 2 2 ⟨[], []⟩,
    .tripsReceived 1 1 ⟨[], []⟩, .walkFailed 3 2 toStationData]
  have hrun : Feasible manager {} es :=
    ⟨trivial, trivial, by decide, by decide, by decide, trivial⟩
  have hshown : ((exec manager {} es).shown.map fun d => (d.calls.length, d.tripData)).head? =
      some (2, some ⟨1, ⟨[], []⟩⟩) := by
    decide +kernel
  obtain ⟨d, hd, hpair⟩ := List.mem_map.mp (List.mem_of_mem_head? hshown)
  obtain ⟨hcalls, htrips⟩ := Prod.mk.inj hpair
  have hcurrent := ((h es hrun).last.shown d hd).trips
  rw [htrips] at hcurrent
  exact absurd (hcurrent.2.trans hcalls) (by decide)

end Motis.Ui.ConnectionManager
