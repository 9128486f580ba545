import Motis.Android.ConnectionList
import Motis.Lib.SpanChain

/-! The list of connections shows a timeline.

    What has been answered is a chain of blocks, and the list is their connections without problems,
    none of them twice and none missing:

        blocks    [before] 1m [before] 1m [initial] 1m [after]
        data       c c c       c           c c c c      c c

    When the answers are about their intervals, the list is sorted. -/

namespace Motis.Android
namespace ConnectionList
open Runs SpanChain

/-- An interval, and what was answered for it. -/
structure Block where
  intervalBegin : ℤ
  intervalEnd : ℤ
  connections : List Connection
  deriving DecidableEq, Repr

def Block.shown (b : Block) : List Connection :=
  sortConnections (b.connections.filter hasNoProblems)

/-- The interval of the first answer is told by the server. -/
def blockOf (r : Request) (res : RoutingResponse) : Block :=
  match r.type with
  | .initial => ⟨res.intervalBegin * 1000, res.intervalEnd * 1000, res.connections⟩
  | _ => ⟨r.searchIntervalBegin, r.searchIntervalEnd, res.connections⟩

/-- The blocks since the last query. When the initial request fails, its interval stays empty. -/
def extend (blocks : List Block) : Event → List Block
  | .loadInitial _ => []
  | .scrolled _ => blocks
  | .response r res _ _ =>
    match r.type with
    | .initial => [blockOf r res]
    | .before => blockOf r res :: blocks
    | .after => blocks ++ [blockOf r res]
  | .failure r _ _ _ =>
    match r.type with
    | .initial => [⟨r.searchIntervalBegin, r.searchIntervalEnd, []⟩]
    | _ => blocks

/-- The blocks follow each other in steps of a minute, and the list shows them. -/
structure Shows (l : ConnectionLoader) (blocks : List Block) : Prop where
  data : l.data.map (·.connection) = blocks.flatMap Block.shown
  chained : Chained Block.intervalBegin Block.intervalEnd minuteInMs blocks
  first : ∀ b ∈ blocks.head?, b.intervalBegin = l.intervalBegin
  last : ∀ b ∈ blocks.getLast?, b.intervalEnd = l.intervalEnd
  empty : blocks = [] ↔ l.initialRequestPending = true
  open_ : l.initialRequestPending = true → l.intervalBegin ≤ l.intervalEnd

@[simp] theorem map_wrapConnections (id : ℤ) (conns : List Connection) :
    (wrapConnections id conns).map (·.connection) = conns := by
  rw [wrapConnections, List.map_map]
  exact List.zipIdx_map_fst 0 conns

theorem Shows.sameList {l l' : ConnectionLoader} {blocks : List Block} (h : Shows l blocks)
    (hsame : SameList l l') : Shows l' blocks := by
  refine ⟨?_, h.chained, ?_, ?_, ?_, ?_⟩
  · rw [hsame.data]
    exact h.data
  · rw [hsame.intervalBegin]
    exact h.first
  · rw [hsame.intervalEnd]
    exact h.last
  · rw [hsame.initialRequestPending]
    exact h.empty
  · rw [hsame.initialRequestPending, hsame.intervalBegin, hsame.intervalEnd]
    exact h.open_

theorem shows_loadInitial (queryTime : ℤ) :
    Shows (JourneyListView.loadInitial queryTime).loader [] := by
  refine ⟨rfl, List.isChain_nil, by simp, by simp, iff_of_true rfl rfl, fun _ => ?_⟩
  change queryTime ≤ queryTime + searchIntervalMs
  have hpos : 0 ≤ searchIntervalMs := by decide
  omega

/-- An answer adds its block. -/
theorem Shows.answer {s : JourneyListView} {blocks : List Block} (hs : Accounted s)
    (h : Shows s.loader blocks) {r : Request} (hr : r ∈ s.loader.subscriptions)
    (res : RoutingResponse) (v v' : Visible) :
    Shows (s.loader.answer r res) (extend blocks (.response r res v v')) := by
  have hcurrent := hs.current r hr
  have hanswered : r.type ≠ .initial → blocks ≠ [] := by
    intro hne hnil
    exact hs.not_initial hr hne (hs.pending.mp (h.empty.mp hnil))
  rw [ConnectionLoader.answer, extend, blockOf]
  cases htype : r.type with
  | initial =>
    refine ⟨?_, List.isChain_singleton _, ?_, ?_, ?_, ?_⟩
    · simp [ConnectionLoader.initialLoaded, Block.shown, getConnections]
    · simp [ConnectionLoader.initialLoaded]
    · simp [ConnectionLoader.initialLoaded]
    · simp [ConnectionLoader.initialLoaded]
    · simp [ConnectionLoader.initialLoaded]
  | before =>
    have hne := hanswered (by simp [htype])
    rw [htype] at hcurrent
    have hpending : s.loader.initialRequestPending ≠ true := fun htrue => hne (h.empty.mpr htrue)
    refine ⟨?_, h.chained.cons ?_, ?_, ?_, ?_, ?_⟩
    · simp only [ConnectionLoader.beforeLoaded, List.map_append, map_wrapConnections, h.data,
        List.flatMap_cons, Block.shown, getConnections]
    · intro b hb
      rw [h.first b hb, hcurrent]
      simp only [ConnectionLoader.request, sub_add_cancel]
    · simp [ConnectionLoader.beforeLoaded]
    · intro b hb
      rw [List.getLast?_cons_of_ne_nil hne] at hb
      exact h.last b hb
    · exact iff_of_false (List.cons_ne_nil _ _) hpending
    · exact fun htrue => absurd htrue hpending
  | after =>
    have hne := hanswered (by simp [htype])
    rw [htype] at hcurrent
    have hpending : s.loader.initialRequestPending ≠ true := fun htrue => hne (h.empty.mpr htrue)
    refine ⟨?_, h.chained.concat ?_, ?_, ?_, ?_, ?_⟩
    · simp [ConnectionLoader.afterLoaded, h.data, Block.shown, getConnections]
    · intro b hb
      rw [h.last b hb, hcurrent]
      simp only [ConnectionLoader.request]
    · intro b hb
      rw [List.head?_append_of_ne_nil _ hne] at hb
      exact h.first b hb
    · simp [ConnectionLoader.afterLoaded]
    · exact iff_of_false (by simp) hpending
    · exact fun htrue => absurd htrue hpending

theorem Shows.fail {s : JourneyListView} {blocks : List Block} (hs : Accounted s)
    (h : Shows s.loader blocks) {r : Request} (hr : r ∈ s.loader.subscriptions) (motisError : Bool)
    (v v' : Visible) : Shows (s.loader.fail r) (extend blocks (.failure r motisError v v')) := by
  have hcurrent := hs.current r hr
  rw [ConnectionLoader.fail, extend]
  cases htype : r.type with
  | initial =>
    rw [htype] at hcurrent
    have hmem : .initial ∈ s.loader.waiting := htype ▸ List.mem_map_of_mem hr
    have hnil := h.empty.mpr (hs.pending.mpr hmem)
    have hdata := h.data
    rw [hnil] at hdata
    refine ⟨by simpa [ConnectionLoader.initialFailed, Block.shown, sortConnections] using hdata,
      List.isChain_singleton _, ?_, ?_, ?_, ?_⟩
    · simp [hcurrent, ConnectionLoader.request, ConnectionLoader.initialFailed]
    · simp [hcurrent, ConnectionLoader.request, ConnectionLoader.initialFailed]
    · simp [ConnectionLoader.initialFailed]
    · simp [ConnectionLoader.initialFailed]
  | before => exact h
  | after => exact h

theorem shows_step {s : JourneyListView} {blocks : List Block} {e : Event} (hs : Accounted s)
    (h : Shows s.loader blocks) (he : enabled s e) : Shows (step s e).loader (extend blocks e) := by
  cases e with
  | loadInitial queryTime => exact shows_loadInitial queryTime
  | scrolled v => exact h.sameList (sameList_onScrolled s v)
  | response r res v v' => exact (h.answer hs he res v v').sameList (sameList_loaded s r res v v')
  | failure r motisError v v' =>
    exact (h.fail hs he motisError v v').sameList (sameList_failed s r motisError v v')

/-- The list shows the blocks of the run. -/
theorem shows_run {s : JourneyListView} {blocks : List Block} {es : List Event} (hs : Accounted s)
    (h : Shows s.loader blocks) (hrun : Feasible system s es) :
    Shows (exec system s es).loader (es.foldl extend blocks) := by
  induction es generalizing s blocks with
  | nil => exact h
  | cons e es ih => exact ih (accounted_step hs hrun.1) (shows_step hs h hrun.1) hrun.2

/-! ### The order of the list -/

/-- The connections of a block depart in it. -/
structure Block.Filled (b : Block) : Prop where
  span : b.intervalBegin ≤ b.intervalEnd
  departs : ∀ c ∈ b.connections,
    b.intervalBegin ≤ c.departure * 1000 ∧ c.departure * 1000 ≤ b.intervalEnd

/-- An answer is about its interval. -/
def Honest : Event → Prop
  | .response r res _ _ => (r.type = .initial → res.intervalBegin ≤ res.intervalEnd) ∧
      ∀ c ∈ res.connections, (blockOf r res).intervalBegin ≤ c.departure * 1000 ∧
        c.departure * 1000 ≤ (blockOf r res).intervalEnd
  | _ => True

theorem filled_blockOf {s : JourneyListView} (hs : Accounted s) {r : Request}
    (hr : r ∈ s.loader.subscriptions) {res : RoutingResponse} {v v' : Visible}
    (h : Honest (.response r res v v')) : (blockOf r res).Filled := by
  have hcurrent := hs.current r hr
  have hconnections : (blockOf r res).connections = res.connections := by
    rw [blockOf]
    cases r.type <;> rfl
  refine ⟨?_, by rw [hconnections]; exact h.2⟩
  have hspan : minuteInMs ≤ searchIntervalMs := by decide
  rw [blockOf]
  cases htype : r.type with
  | initial =>
    have hinitial := h.1 htype
    simp only
    omega
  | before =>
    rw [htype] at hcurrent
    simp only [hcurrent, ConnectionLoader.request]
    omega
  | after =>
    rw [htype] at hcurrent
    simp only [hcurrent, ConnectionLoader.request]
    omega

theorem filled_step {s : JourneyListView} {blocks : List Block} {e : Event} (hs : Accounted s)
    (hshows : Shows s.loader blocks) (he : enabled s e) (hhonest : Honest e)
    (h : ∀ b ∈ blocks, b.Filled) : ∀ b ∈ extend blocks e, b.Filled := by
  cases e with
  | loadInitial queryTime => simp [extend]
  | scrolled v => exact h
  | response r res v v' =>
    have hnew := filled_blockOf hs he hhonest
    rw [extend]
    cases r.type with
    | initial => simpa using hnew
    | before =>
      rintro b hb
      rcases List.mem_cons.mp hb with rfl | hb
      · exact hnew
      · exact h b hb
    | after =>
      rintro b hb
      rcases List.mem_append.mp hb with hb | hb
      · exact h b hb
      · rw [List.mem_singleton.mp hb]
        exact hnew
  | failure r motisError v v' =>
    rw [extend]
    cases htype : r.type with
    | initial =>
      have hcurrent := hs.current r he
      have hmem : .initial ∈ s.loader.waiting := htype ▸ List.mem_map_of_mem he
      rw [htype] at hcurrent
      simp only [List.mem_singleton, forall_eq]
      refine ⟨?_, by simp⟩
      simp only [hcurrent, ConnectionLoader.request]
      exact hshows.open_ (hs.pending.mpr hmem)
    | before => exact h
    | after => exact h

theorem filled_run {s : JourneyListView} {blocks : List Block} {es : List Event} (hs : Accounted s)
    (hshows : Shows s.loader blocks) (h : ∀ b ∈ blocks, b.Filled) (hrun : Feasible system s es)
    (hhonest : ∀ e ∈ es, Honest e) : ∀ b ∈ es.foldl extend blocks, b.Filled := by
  induction es generalizing s blocks with
  | nil => exact h
  | cons e es ih =>
    obtain ⟨he, hes⟩ := List.forall_mem_cons.mp hhonest
    exact ih (accounted_step hs hrun.1) (shows_step hs hshows hrun.1)
      (filled_step hs hshows hrun.1 he h) hrun.2 hes

theorem mem_shown {b : Block} {c : Connection} : c ∈ b.shown ↔
    c ∈ b.connections ∧ hasNoProblems c = true := by
  rw [Block.shown, sortConnections, List.mem_insertionSort, List.mem_filter]

theorem pairwise_shown (b : Block) : b.shown.Pairwise (·.departure ≤ ·.departure) := by
  have htotal : Std.Total fun a b : Connection => a.departure ≤ b.departure := ⟨fun a b => by omega⟩
  have htrans : IsTrans Connection fun a b => a.departure ≤ b.departure :=
    ⟨fun a b c hab hbc => le_trans hab hbc⟩
  exact List.pairwise_insertionSort _ _

/-- The connections of filled blocks are sorted, and depart in the loaded interval. -/
theorem Shows.sorted {l : ConnectionLoader} {blocks : List Block} (h : Shows l blocks)
    (hfilled : ∀ b ∈ blocks, b.Filled) :
    (l.data.map (·.connection)).Pairwise (·.departure ≤ ·.departure) ∧
      ∀ w ∈ l.data, l.intervalBegin ≤ w.connection.departure * 1000 ∧
        w.connection.departure * 1000 ≤ l.intervalEnd := by
  have hgap : 0 < minuteInMs := by decide
  have hspan : ∀ b ∈ blocks, b.intervalBegin ≤ b.intervalEnd := fun b hb => (hfilled b hb).span
  have hdeparts : ∀ b ∈ blocks, ∀ c ∈ b.shown, b.intervalBegin ≤ c.departure * 1000 ∧
      c.departure * 1000 ≤ b.intervalEnd :=
    fun b hb c hc => (hfilled b hb).departs c (mem_shown.mp hc).1
  constructor
  · have hsorted : (blocks.flatMap Block.shown).Pairwise
        fun a b => a.departure * 1000 ≤ b.departure * 1000 :=
      h.chained.sorted hgap hspan hdeparts fun b _ => (pairwise_shown b).imp fun hle => by omega
    rw [h.data]
    exact hsorted.imp fun hle => by omega
  · intro w hw
    have hmem : w.connection ∈ blocks.flatMap Block.shown := by
      rw [← h.data]
      exact List.mem_map_of_mem hw
    obtain ⟨b, hb, hc⟩ := List.mem_flatMap.mp hmem
    obtain ⟨hfirst, hlast⟩ := h.chained.within hgap hspan hb
    have hne : blocks ≠ [] := List.ne_nil_of_mem hb
    have hbegin := hfirst _ (List.head?_eq_some_head hne)
    have hend := hlast _ (List.getLast?_eq_some_getLast hne)
    rw [h.first _ (List.head?_eq_some_head hne)] at hbegin
    rw [h.last _ (List.getLast?_eq_some_getLast hne)] at hend
    have hwithin := hdeparts b hb _ hc
    omega

end ConnectionList
end Motis.Android
