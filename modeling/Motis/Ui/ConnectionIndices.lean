import Mathlib.Data.List.Nodup
import Mathlib.Data.List.Perm.Basic
import Motis.Lib.Runs
import Motis.Ui.Connections

/-! Indices of connections.

    An index is a position in the list of journeys, plus the offset of the list. What is prepended
    takes new positions and lowers the offset by their number, and the list is sorted as a whole:

        old        │ a b c      indices   0 1 2
        new ++ old │ x a b y c            -2 -1 0 1 2

    An index keeps its journey as long as nothing new is sorted between the old journeys. -/

namespace Motis.Ui
open Runs

variable {V : Views}

/-! ### Sorting two parts -/

section Sorting

variable {α : Type} {key : α → ℤ ×ₗ ℤ}

/-- `sortBy` -/
abbrev sortBy (key : α → ℤ ×ₗ ℤ) (l : List α) : List α := l.mergeSort fun a b => key a ≤ key b

theorem key_trans (key : α → ℤ ×ₗ ℤ) (a b c : α) (hab : decide (key a ≤ key b) = true)
    (hbc : decide (key b ≤ key c) = true) : decide (key a ≤ key c) = true :=
  decide_eq_true (le_trans (of_decide_eq_true hab) (of_decide_eq_true hbc))

theorem key_total (key : α → ℤ ×ₗ ℤ) (a b : α) :
    (decide (key a ≤ key b) || decide (key b ≤ key a)) = true := by
  simpa using le_total (key a) (key b)

theorem pairwise_sortBy (key : α → ℤ ×ₗ ℤ) (l : List α) : (sortBy key l).Pairwise fun a b => key a ≤ key b := by
  simpa using List.pairwise_mergeSort (key_trans key) (key_total key) l

theorem sortBy_of_pairwise {l : List α} (h : l.Pairwise fun a b => key a ≤ key b) :
    sortBy key l = l :=
  List.mergeSort_of_pairwise (by simpa using h)

/-- An element is inserted before what is not below it. -/
theorem sortBy_cons (key : α → ℤ ×ₗ ℤ) (a : α) (l : List α) : ∃ l₁ l₂, sortBy key (a :: l) = l₁ ++ a :: l₂ ∧
    sortBy key l = l₁ ++ l₂ ∧ (∀ b ∈ l₁, key b < key a) ∧ ∀ b ∈ l₂, key a ≤ key b := by
  obtain ⟨l₁, l₂, hcons, hl, hbelow⟩ :=
    List.mergeSort_cons (key_trans key) (key_total key) a l
  refine ⟨l₁, l₂, hcons, hl, fun b hb => by simpa using hbelow b hb, ?_⟩
  have hsorted := pairwise_sortBy key (a :: l)
  rw [sortBy, hcons, List.pairwise_append, List.pairwise_cons] at hsorted
  exact hsorted.2.1.1

theorem split_unique {p : α → Prop} {l₁ l₂ m₁ m₂ : List α} (h : l₁ ++ l₂ = m₁ ++ m₂)
    (hl₁ : ∀ b ∈ l₁, p b) (hl₂ : ∀ b ∈ l₂, ¬ p b) (hm₁ : ∀ b ∈ m₁, p b) (hm₂ : ∀ b ∈ m₂, ¬ p b) :
    l₁ = m₁ ∧ l₂ = m₂ := by
  induction l₁ generalizing m₁ with
  | nil =>
    cases m₁ with
    | nil => exact ⟨rfl, h⟩
    | cons b m₁ =>
      have hb : b ∈ l₂ := by
        rw [List.nil_append] at h
        rw [h]
        exact List.mem_cons_self
      exact absurd (hm₁ b List.mem_cons_self) (hl₂ b hb)
  | cons a l₁ ih =>
    cases m₁ with
    | nil =>
      have ha : a ∈ m₂ := by
        rw [List.nil_append] at h
        rw [← h]
        exact List.mem_cons_self
      exact absurd (hl₁ a List.mem_cons_self) (hm₂ a ha)
    | cons b m₁ =>
      obtain ⟨rfl, htail⟩ := List.cons_eq_cons.mp h
      obtain ⟨rfl, rfl⟩ := ih htail (fun b hb => hl₁ b (List.mem_cons_of_mem _ hb))
        (fun b hb => hm₁ b (List.mem_cons_of_mem _ hb))
      exact ⟨rfl, rfl⟩

/-- Two parts, one before the other, are sorted by themselves. -/
theorem sortBy_append {l l' : List α} (h : ∀ a ∈ l, ∀ b ∈ l', key a ≤ key b) :
    sortBy key (l ++ l') = sortBy key l ++ sortBy key l' := by
  induction l with
  | nil => simp
  | cons a l ih =>
    obtain ⟨l₁, l₂, hcons, hl, hl₁, hl₂⟩ := sortBy_cons key a (l ++ l')
    obtain ⟨m₁, m₂, hcons', hm, hm₁, hm₂⟩ := sortBy_cons key a l
    have hsplit : l₁ ++ l₂ = m₁ ++ (m₂ ++ sortBy key l') := by
      rw [← hl, ih fun a' ha' => h a' (List.mem_cons_of_mem _ ha'), hm, List.append_assoc]
    have hm₂' : ∀ b ∈ m₂ ++ sortBy key l', ¬ key b < key a := by
      intro b hb
      rw [not_lt]
      rcases List.mem_append.mp hb with hb | hb
      · exact hm₂ b hb
      · exact h a List.mem_cons_self b (List.mem_mergeSort.mp hb)
    obtain ⟨rfl, rfl⟩ := split_unique hsplit hl₁ (fun b hb => not_lt.mpr (hl₂ b hb)) hm₁ hm₂'
    rw [List.cons_append, hcons, hcons', List.append_assoc, List.cons_append]

end Sorting

/-! ### The journeys of a model -/

theorem sortJourneys_eq (l : List (LabeledJourney V)) : sortJourneys l = sortBy sortKey l := rfl

/-- The graph shows the journey; it may have been hovered since. -/
inductive Views.Shows (V : Views) (journey : V.Journey) : V.Graph → Prop where
  | init : Shows V journey (V.graph transportListViewWidth journey)
  | update {graph : V.Graph} (msg : V.GraphMsg) :
      Shows V journey graph → Shows V journey (V.graphUpdate msg graph)
  | hide {graph : V.Graph} : Shows V journey graph → Shows V journey (V.hideTooltips graph)

/-- Every graph shows the journey with its index. -/
def Model.Aligned (model : Model V) : Prop :=
  List.Forall₂ (fun lj graph => V.Shows lj.journey graph) model.journeys
    model.journeyTransportGraphs

/-- The journeys a response to the action adds. -/
def Model.added (model : Model V) (action : SearchAction) (response : V.Response) :
    List (LabeledJourney V) :=
  (model.answered action [(model.remoteAddress, response)]).journeysToAdd
    [(model.remoteAddress, response)]

def widget : System (Model V) (Msg V) where
  enabled := fun _ _ => True
  step := fun model msg => (model.update msg).1

/-- The message replaces the results. -/
def Replaces (model : Model V) : Msg V → Prop
  | .receiveResponse .replaceResults _ requestId _
  | .receiveError .replaceResults _ requestId _ => requestId = model.lastRequestId
  | .setRoutingResponses _ | .setError _ | .resetAll => True
  | _ => False

/-- What a response adds is sorted to the end it is added to. -/
def Ordered (model : Model V) : Msg V → Prop
  | .receiveResponse .prependResults _ requestId response => requestId = model.lastRequestId →
      ∀ new ∈ model.added .prependResults response, ∀ old ∈ model.journeys,
        sortKey new ≤ sortKey old
  | .receiveResponse .appendResults _ requestId response => requestId = model.lastRequestId →
      ∀ new ∈ model.added .appendResults response, ∀ old ∈ model.journeys,
        sortKey old ≤ sortKey new
  | _ => True

/-- `newJourneys` holds the indices of the given journeys. -/
structure Model.NewJourneys (model : Model V) (new : List (LabeledJourney V)) : Prop where
  nodup : model.newJourneys.Nodup
  offset_le : ∀ idx ∈ model.newJourneys, model.indexOffset ≤ idx
  perm : (model.newJourneys.map fun idx =>
    elementAt model.journeys (model.connectionIdxToListIdx idx)).Perm (new.map some)

/-- After a response extended the results, `newJourneys` holds what it added. -/
def NewJourneysExact (model : Model V) (msg : Msg V) : Prop :=
  match msg with
  | .receiveResponse .prependResults _ requestId response => requestId = model.lastRequestId →
      (model.update msg).1.NewJourneys (model.added .prependResults response)
  | .receiveResponse .appendResults _ requestId response => requestId = model.lastRequestId →
      (model.update msg).1.NewJourneys (model.added .appendResults response)
  | _ => True

/-- The journeys are sorted and shown by their graphs. -/
structure Listed (model : Model V) : Prop where
  sorted : model.journeys.Pairwise fun a b => sortKey a ≤ sortKey b
  aligned : model.Aligned

/-- Every index from the offset on keeps its journey. -/
def KeepsIndices (model model' : Model V) : Prop :=
  ∀ idx journey, model.indexOffset ≤ idx → model.getJourney idx = some journey →
    model'.getJourney idx = some journey

/-! ### What an answer does -/

section Answers

variable (model : Model V) (request : V.Request) (response : V.Response)

theorem update_replace :
    (model.update (.receiveResponse .replaceResults request model.lastRequestId response)).1 =
      let new := model.added .replaceResults response
      { ({ model with allowExtend := true }.answered .replaceResults
          [(model.remoteAddress, response)]) with
        journeys := sortJourneys new
        journeyTransportGraphs := (sortJourneys new).map fun lj =>
          V.graph transportListViewWidth lj.journey
        indexOffset := 0
        newJourneys := []
        labels := [model.remoteAddress].eraseDups } := by
  rw [Model.update, if_pos rfl]
  rfl

theorem update_prepend :
    (model.update (.receiveResponse .prependResults request model.lastRequestId response)).1 =
      let new := model.added .prependResults response
      let offset := model.indexOffset - new.length
      { ({ model with allowExtend := true }.answered .prependResults
          [(model.remoteAddress, response)]) with
        journeys := sortJourneys (new ++ model.journeys)
        journeyTransportGraphs := (sortJourneys (new ++ model.journeys)).map fun lj =>
          V.graph transportListViewWidth lj.journey
        indexOffset := offset
        newJourneys := range offset (offset + new.length - 1)
        labels := (model.labels ++ [model.remoteAddress].eraseDups).eraseDups } := by
  rw [Model.update, if_pos rfl]
  rfl

theorem update_append :
    (model.update (.receiveResponse .appendResults request model.lastRequestId response)).1 =
      let new := model.added .appendResults response
      { ({ model with allowExtend := true }.answered .appendResults
          [(model.remoteAddress, response)]) with
        journeys := sortJourneys (model.journeys ++ new)
        journeyTransportGraphs := (sortJourneys (model.journeys ++ new)).map fun lj =>
          V.graph transportListViewWidth lj.journey
        indexOffset := model.indexOffset
        newJourneys := range (model.indexOffset + model.journeys.length)
          (model.indexOffset + (model.journeys ++ new).length - 1)
        labels := (model.labels ++ [model.remoteAddress].eraseDups).eraseDups } := by
  rw [Model.update, if_pos rfl]
  rfl

variable {model request response}

theorem update_stale {action : SearchAction} {requestId : ℤ}
    (h : requestId ≠ model.lastRequestId) :
    (model.update (.receiveResponse action request requestId response)).1 = model := by
  rw [Model.update, if_neg h]

end Answers

/-! ### Alignment -/

section Alignment

variable {model : Model V}

theorem shows_modify {journeys : List (LabeledJourney V)} {graphs : List V.Graph}
    (h : List.Forall₂ (fun lj graph => V.Shows lj.journey graph) journeys graphs)
    (msg : V.GraphMsg) (n : ℕ) :
    List.Forall₂ (fun lj graph => V.Shows lj.journey graph) journeys
      (graphs.modify n (V.graphUpdate msg)) := by
  induction h generalizing n with
  | nil => cases n <;> exact .nil
  | cons hhead htail ih =>
    cases n with
    | zero => exact .cons (.update msg hhead) htail
    | succ n => exact .cons hhead (ih n)

theorem listed_init (remoteAddress : String) : Listed (init remoteAddress : Model V) :=
  ⟨.nil, .nil⟩

theorem listed_updateModelWithNewResults (model : Model V) (action : SearchAction)
    (responses : List (String × V.Response)) :
    Listed (model.updateModelWithNewResults action responses).1 where
  sorted := pairwise_sortBy _ _
  aligned := List.forall₂_map_right_iff.mpr (List.forall₂_same.mpr fun _ _ => .init)

theorem Listed.handleRequestError (h : Listed model) (action : SearchAction) (err : V.ApiError) :
    Listed (model.handleRequestError action err) := by
  cases action with
  | replaceResults => exact ⟨.nil, .nil⟩
  | prependResults => exact ⟨h.sorted, h.aligned⟩
  | appendResults => exact ⟨h.sorted, h.aligned⟩

theorem Listed.update (h : Listed model) (msg : Msg V) : Listed (model.update msg).1 := by
  cases msg with
  | noOp => exact h
  | search action req fromName toName => exact ⟨h.sorted, h.aligned⟩
  | extendSearchInterval direction =>
    rw [Model.update]
    cases model.routingRequest with
    | none => exact h
    | some req => cases direction <;> exact ⟨h.sorted, h.aligned⟩
  | receiveResponse action request requestId response =>
    rw [Model.update]
    split
    · exact listed_updateModelWithNewResults _ _ _
    · exact h
  | receiveError action request requestId err =>
    rw [Model.update]
    split
    · exact h.handleRequestError action err
    · exact h
  | resetNew =>
    exact ⟨h.sorted, List.forall₂_map_right_iff.mpr (h.aligned.imp fun _ _ hshows => .hide hshows)⟩
  | jtgUpdate idx msg =>
    refine ⟨h.sorted, ?_⟩
    rw [Model.Aligned, Model.update, updateAt]
    split
    · exact h.aligned
    · exact shows_modify h.aligned msg _
  | setRoutingResponses responses => exact listed_updateModelWithNewResults _ _ _
  | setError err => exact h.handleRequestError .replaceResults err
  | mouseEnterConnection idx journey => exact h
  | mouseLeaveConnection idx journey => exact h
  | resetAll => exact ⟨.nil, .nil⟩

end Alignment

/-! ### Indices -/

section Indices

variable {model model' : Model V}

/-- An element keeps its distance from the end when a list is put before it. -/
theorem elementAt_append {α : Type} (front l : List α) {i : ℤ} (hi : 0 ≤ i) :
    elementAt (front ++ l) (i + front.length) = elementAt l i := by
  obtain ⟨n, rfl⟩ := Int.eq_ofNat_of_zero_le hi
  have hpos : ((n : ℤ) + front.length).toNat = front.length + n := by omega
  rw [elementAt, hpos, List.drop_append]
  simp [elementAt]

theorem elementAt_append_left {α : Type} (l back : List α) {i : ℤ} {a : α}
    (h : elementAt l i = some a) : elementAt (l ++ back) i = some a := by
  rw [elementAt, List.head?_drop] at h ⊢
  rw [List.getElem?_append_left (List.getElem?_eq_some_iff.mp h).1]
  exact h

theorem getJourney_updateJourneys (f : V.Journey → V.Journey) (idx : ℤ) :
    (model.updateJourneys f).getJourney idx = (model.getJourney idx).map f := by
  simp only [Model.getJourney, Model.updateJourneys, Model.connectionIdxToListIdx, elementAt,
    List.head?_drop, List.getElem?_map, Option.map_map]
  rfl

/-- An update of one journey leaves the others. -/
theorem getJourney_updateJourney (f : V.Journey → V.Journey) {idx idx' : ℤ}
    (hidx : model.indexOffset ≤ idx) (hidx' : model.indexOffset ≤ idx') :
    (model.updateJourney idx f).getJourney idx' =
      if idx = idx' then (model.getJourney idx').map f else model.getJourney idx' := by
  obtain ⟨n, hn⟩ := Int.eq_ofNat_of_zero_le (Int.sub_nonneg_of_le hidx)
  obtain ⟨n', hn'⟩ := Int.eq_ofNat_of_zero_le (Int.sub_nonneg_of_le hidx')
  have heq : idx = idx' ↔ n = n' := by omega
  simp only [Model.updateJourney, updateAt, Model.connectionIdxToListIdx, hn]
  split
  · rename_i journeys hsome
    split at hsome
    · cases hsome
    · cases hsome
      simp only [Model.getJourney, Model.connectionIdxToListIdx, elementAt, List.head?_drop, hn',
        Int.toNat_natCast, List.getElem?_modify, heq]
      split
      · cases model.journeys[n']? <;> rfl
      · simp
  · rename_i hnone
    have hlen : model.journeys.length ≤ n := by
      split at hnone
      · omega
      · cases hnone
    have hget : model.getJourney idx' = if n = n' then none else model.getJourney idx' := by
      split
      · rw [Model.getJourney, Model.connectionIdxToListIdx, elementAt, hn', List.head?_drop,
          Int.toNat_natCast, List.getElem?_eq_none (by omega)]
        rfl
      · rfl
    by_cases hnn : n = n'
    · rw [if_pos hnn] at hget
      rw [hget, if_pos (heq.mpr hnn)]
      rfl
    · rw [if_neg fun h => hnn (heq.mp h)]

theorem KeepsIndices.refl_of (hjourneys : model'.journeys = model.journeys)
    (hoffset : model'.indexOffset = model.indexOffset) : KeepsIndices model model' := by
  intro idx journey _ h
  rwa [Model.getJourney, Model.connectionIdxToListIdx, hjourneys, hoffset]

/-- What is put before the journeys takes the positions below the offset. -/
theorem keepsIndices_front {new : List (LabeledJourney V)}
    (hjourneys : model'.journeys = new ++ model.journeys)
    (hoffset : model'.indexOffset = model.indexOffset - new.length) :
    KeepsIndices model model' := by
  intro idx journey hidx h
  have hpos : model'.connectionIdxToListIdx idx =
      model.connectionIdxToListIdx idx + new.length := by
    rw [Model.connectionIdxToListIdx, Model.connectionIdxToListIdx, hoffset]
    omega
  rw [Model.getJourney, hpos, hjourneys, elementAt_append]
  · exact h
  · exact Int.sub_nonneg_of_le hidx

theorem keepsIndices_back {new : List (LabeledJourney V)}
    (hjourneys : model'.journeys = model.journeys ++ new)
    (hoffset : model'.indexOffset = model.indexOffset) : KeepsIndices model model' := by
  intro idx journey _ h
  rw [Model.getJourney, Option.map_eq_some_iff] at h ⊢
  obtain ⟨lj, hlj, rfl⟩ := h
  refine ⟨lj, ?_, rfl⟩
  rw [Model.connectionIdxToListIdx, hoffset, hjourneys]
  exact elementAt_append_left _ _ hlj

/-- A message that does not replace the results keeps every index, when what it adds is ordered. -/
theorem keepsIndices_update (h : Listed model) (msg : Msg V) (hreplaces : ¬ Replaces model msg)
    (hordered : Ordered model msg) :
    KeepsIndices model (model.update msg).1 ∧
      (model.update msg).1.indexOffset ≤ model.indexOffset := by
  have hsame : ∀ model' : Model V, model'.journeys = model.journeys →
      model'.indexOffset = model.indexOffset →
        KeepsIndices model model' ∧ model'.indexOffset ≤ model.indexOffset :=
    fun _ hjourneys hoffset => ⟨.refl_of hjourneys hoffset, hoffset.le⟩
  cases msg with
  | noOp => exact hsame _ rfl rfl
  | search action req fromName toName => exact hsame _ rfl rfl
  | extendSearchInterval direction =>
    rw [Model.update]
    cases model.routingRequest with
    | none => exact hsame _ rfl rfl
    | some req => cases direction <;> exact hsame _ rfl rfl
  | receiveResponse action request requestId response =>
    by_cases hid : requestId = model.lastRequestId
    · subst hid
      cases action with
      | replaceResults => exact absurd rfl hreplaces
      | prependResults =>
        rw [update_prepend]
        have hfront : sortJourneys (model.added .prependResults response ++ model.journeys) =
            sortJourneys (model.added .prependResults response) ++ model.journeys := by
          simp only [sortJourneys_eq]
          rw [sortBy_append (hordered rfl), sortBy_of_pairwise h.sorted]
        refine ⟨keepsIndices_front hfront ?_, ?_⟩
        · simp [sortJourneys]
        · exact Int.sub_le_self _ (Int.natCast_nonneg _)
      | appendResults =>
        rw [update_append]
        have hback : sortJourneys (model.journeys ++ model.added .appendResults response) =
            model.journeys ++ sortJourneys (model.added .appendResults response) := by
          simp only [sortJourneys_eq]
          rw [sortBy_append fun old hold new hnew => hordered rfl new hnew old hold,
            sortBy_of_pairwise h.sorted]
        exact ⟨keepsIndices_back hback rfl, le_refl _⟩
    · rw [update_stale hid]
      exact hsame _ rfl rfl
  | receiveError action request requestId err =>
    rw [Model.update]
    split
    · cases action with
      | replaceResults => contradiction
      | prependResults => exact hsame _ rfl rfl
      | appendResults => exact hsame _ rfl rfl
    · exact hsame _ rfl rfl
  | resetNew => exact hsame _ rfl rfl
  | jtgUpdate idx msg => exact hsame _ rfl rfl
  | setRoutingResponses responses => exact absurd trivial hreplaces
  | setError err => exact absurd trivial hreplaces
  | mouseEnterConnection idx journey => exact hsame _ rfl rfl
  | mouseLeaveConnection idx journey => exact hsame _ rfl rfl
  | resetAll => exact absurd trivial hreplaces

/-- The positions of a part of a list. -/
theorem map_elementAt_range {α : Type} (front part back : List α) (offset : ℤ) :
    (range (offset + front.length) (offset + front.length + part.length - 1)).map
      (fun idx => elementAt (front ++ part ++ back) (idx - offset)) = part.map some := by
  have hlen : (offset + front.length + part.length - 1 - (offset + front.length) + 1).toNat =
      part.length := by omega
  rw [range, hlen, List.map_map]
  refine List.ext_getElem (by simp) fun i hi hi' => ?_
  have hpart : i < part.length := by simpa using hi
  have hpos : (offset + front.length + i - offset).toNat = front.length + i := by omega
  rw [List.getElem_map, List.getElem_map, List.getElem_range, Function.comp_apply, elementAt, hpos,
    List.head?_drop, List.append_assoc, List.getElem?_append_right (Nat.le_add_right _ _),
    Nat.add_sub_cancel_left, List.getElem?_append_left hpart, List.getElem?_eq_getElem hpart]

theorem nodup_range (lo hi : ℤ) : (range lo hi).Nodup :=
  List.Nodup.map (fun _ _ hab => Int.ofNat_inj.mp (Int.add_left_cancel hab)) List.nodup_range

theorem le_of_mem_range {lo hi idx : ℤ} (h : idx ∈ range lo hi) : lo ≤ idx := by
  obtain ⟨n, -, rfl⟩ := List.mem_map.mp h
  omega

/-- The indices of the part of the journeys that is new. -/
theorem newJourneys_of_part {front new added back : List (LabeledJourney V)}
    (hjourneys : model.journeys = front ++ new ++ back) (hadded : new.Perm added)
    (hnew : model.newJourneys = range (model.indexOffset + front.length)
      (model.indexOffset + front.length + new.length - 1)) :
    model.NewJourneys added where
  nodup := by
    rw [hnew]
    exact nodup_range _ _
  offset_le := by
    intro idx hidx
    rw [hnew] at hidx
    have hle := le_of_mem_range hidx
    omega
  perm := by
    rw [hnew, hjourneys]
    simp only [Model.connectionIdxToListIdx]
    rw [map_elementAt_range]
    exact hadded.map _

theorem newJourneysExact_of_ordered (h : Listed model) (msg : Msg V)
    (hordered : Ordered model msg) : NewJourneysExact model msg := by
  cases msg with
  | receiveResponse action request requestId response =>
    cases action with
    | replaceResults => trivial
    | prependResults =>
      intro hid
      subst hid
      rw [update_prepend]
      have hsorted : sortJourneys (model.added .prependResults response ++ model.journeys) =
          [] ++ sortJourneys (model.added .prependResults response) ++ model.journeys := by
        simp only [sortJourneys_eq]
        rw [sortBy_append (hordered rfl), sortBy_of_pairwise h.sorted]
        rfl
      refine newJourneys_of_part hsorted (List.mergeSort_perm _ _) ?_
      simp [sortJourneys]
    | appendResults =>
      intro hid
      subst hid
      rw [update_append]
      have hsorted : sortJourneys (model.journeys ++ model.added .appendResults response) =
          model.journeys ++ sortJourneys (model.added .appendResults response) ++ [] := by
        simp only [sortJourneys_eq]
        rw [sortBy_append fun old hold new hnew => hordered rfl new hnew old hold,
          sortBy_of_pairwise h.sorted, List.append_nil]
      refine newJourneys_of_part hsorted (List.mergeSort_perm _ _) ?_
      simp [sortJourneys, Int.add_assoc]
  | _ => trivial

/-! An answer that keeps every index is ordered, so nothing less will do. -/

theorem sortKey_eq_of_journey {lj lj' : LabeledJourney V} (h : lj.journey = lj'.journey) :
    sortKey lj = sortKey lj' := by
  rw [sortKey, sortKey, h]

/-- The journeys at the old positions are the old ones. -/
theorem map_journey_of_keeps (hkeeps : KeepsIndices model model') {n : ℕ}
    (hoffset : model'.indexOffset = model.indexOffset - n)
    (hlen : n + model.journeys.length ≤ model'.journeys.length) :
    ((model'.journeys.drop n).take model.journeys.length).map (·.journey) =
      model.journeys.map (·.journey) := by
  refine List.ext_getElem (by simp; omega) fun i hi hi' => ?_
  have hlt : i < model.journeys.length := by simpa using hi'
  have hold : model.getJourney (model.indexOffset + i) = some (model.journeys[i]).journey := by
    have hpos : (model.indexOffset + i - model.indexOffset).toNat = i := by omega
    rw [Model.getJourney, Model.connectionIdxToListIdx, elementAt, hpos, List.head?_drop,
      List.getElem?_eq_getElem hlt, Option.map_some]
  have hnew := hkeeps _ _ (by omega) hold
  have hpos : (model'.connectionIdxToListIdx (model.indexOffset + i)).toNat = n + i := by
    rw [Model.connectionIdxToListIdx, hoffset]
    omega
  rw [Model.getJourney, elementAt, hpos, List.head?_drop,
    List.getElem?_eq_getElem (by omega)] at hnew
  simpa using hnew

/-- When the parts of a sorted list have the journeys of two lists, these are in order. -/
theorem sortKey_le_of_parts {front back l l' : List (LabeledJourney V)}
    (hsorted : (front ++ back).Pairwise fun a b => sortKey a ≤ sortKey b)
    (hl : (front.map (·.journey)).Perm (l.map (·.journey)))
    (hl' : (back.map (·.journey)).Perm (l'.map (·.journey))) :
    ∀ a ∈ l, ∀ b ∈ l', sortKey a ≤ sortKey b := by
  intro a ha b hb
  obtain ⟨a', ha', haj⟩ := List.mem_map.mp (hl.symm.subset (List.mem_map_of_mem ha))
  obtain ⟨b', hb', hbj⟩ := List.mem_map.mp (hl'.symm.subset (List.mem_map_of_mem hb))
  rw [← sortKey_eq_of_journey haj, ← sortKey_eq_of_journey hbj]
  exact (List.pairwise_append.mp hsorted).2.2 a' ha' b' hb'

theorem ordered_of_keepsIndices {msg : Msg V} (hkeeps : KeepsIndices model (model.update msg).1) :
    Ordered model msg := by
  cases msg with
  | receiveResponse action request requestId response =>
    cases action with
    | replaceResults => trivial
    | prependResults =>
      intro hid
      subst hid
      rw [update_prepend] at hkeeps
      generalize model.added .prependResults response = new at hkeeps ⊢
      have hback := map_journey_of_keeps hkeeps (n := new.length) rfl (by simp [sortJourneys])
      simp only at hback
      set sorted := sortJourneys (new ++ model.journeys)
      have hlen : (sorted.drop new.length).length = model.journeys.length := by
        simp [sorted, sortJourneys]
      rw [← hlen, List.take_length] at hback
      have hperm : ((sorted.take new.length ++ sorted.drop new.length).map (·.journey)).Perm
          ((new ++ model.journeys).map (·.journey)) := by
        rw [List.take_append_drop]
        exact (List.mergeSort_perm _ _).map _
      rw [List.map_append, List.map_append, hback, List.perm_append_right_iff] at hperm
      refine sortKey_le_of_parts ?_ hperm (.of_eq hback)
      rw [List.take_append_drop]
      exact pairwise_sortBy _ _
    | appendResults =>
      intro hid
      subst hid
      rw [update_append] at hkeeps
      generalize model.added .appendResults response = new at hkeeps ⊢
      have hfront := map_journey_of_keeps hkeeps (n := 0) (Int.sub_zero _).symm
        (by simp [sortJourneys])
      simp only [List.drop_zero] at hfront
      set sorted := sortJourneys (model.journeys ++ new)
      have hperm : ((sorted.take model.journeys.length ++
          sorted.drop model.journeys.length).map (·.journey)).Perm
          ((model.journeys ++ new).map (·.journey)) := by
        rw [List.take_append_drop]
        exact (List.mergeSort_perm _ _).map _
      rw [List.map_append, List.map_append, hfront, List.perm_append_left_iff] at hperm
      intro a ha b hb
      refine sortKey_le_of_parts ?_ (.of_eq hfront) hperm b hb a ha
      rw [List.take_append_drop]
      exact pairwise_sortBy _ _
  | _ => trivial

end Indices

/-! ### Runs -/

/-- What the indices of a run promise: wherever the results are not replaced every index keeps its
    journey, `newJourneys` is exact, and every graph shows its journey. -/
structure StableIndices (model : Model V) (msgs : List (Msg V)) : Prop where
  keeps : ∀ before between after, msgs = before ++ (between ++ after) →
    Each widget (fun model msg => ¬ Replaces model msg) (exec widget model before) between →
      KeepsIndices (exec widget model before) (exec widget (exec widget model before) between)
  new : Each widget NewJourneysExact model msgs
  aligned : Always widget Model.Aligned model msgs

section Runs

variable {σ ε : Type} {M : System σ ε} {Q : σ → ε → Prop} {s : σ}

theorem each_append_left {es es' : List ε} (h : Each M Q s (es ++ es')) : Each M Q s es := by
  induction es generalizing s with
  | nil => trivial
  | cons e es ih => exact ⟨h.1, ih h.2⟩

theorem each_append_right {es es' : List ε} (h : Each M Q s (es ++ es')) :
    Each M Q (exec M s es) es' := by
  induction es generalizing s with
  | nil => exact h
  | cons e es ih => exact ih h.2

theorem each_of_forall_split {es : List ε}
    (h : ∀ before e after, es = before ++ e :: after → Q (exec M s before) e) : Each M Q s es := by
  induction es generalizing s with
  | nil => trivial
  | cons e es ih =>
    refine ⟨h [] e es rfl, ih fun before e' after heq => ?_⟩
    exact h (e :: before) e' after (by rw [heq, List.cons_append])

end Runs

theorem listed_exec {model : Model V} (h : Listed model) (msgs : List (Msg V)) :
    Listed (exec widget model msgs) := by
  induction msgs generalizing model with
  | nil => exact h
  | cons msg msgs ih => exact ih (h.update msg)

theorem keepsIndices_exec {model : Model V} {msgs : List (Msg V)} (h : Listed model)
    (hordered : Each widget Ordered model msgs)
    (hreplaces : Each widget (fun model msg => ¬ Replaces model msg) model msgs) :
    KeepsIndices model (exec widget model msgs) := by
  induction msgs generalizing model with
  | nil => exact fun _ _ _ h => h
  | cons msg msgs ih =>
    obtain ⟨hkeeps, hoffset⟩ := keepsIndices_update h msg hreplaces.1 hordered.1
    have hrest := ih (h.update msg) hordered.2 hreplaces.2
    intro idx journey hidx hjourney
    exact hrest idx journey (hoffset.trans hidx) (hkeeps idx journey hidx hjourney)

/-- What replaces the results adds nothing to them. -/
theorem ordered_of_replaces {model : Model V} {msg : Msg V} (h : Replaces model msg) :
    Ordered model msg := by
  cases msg with
  | receiveResponse action request requestId response =>
    cases action with
    | replaceResults => trivial
    | prependResults => exact h.elim
    | appendResults => exact h.elim
  | _ => trivial

/-- CORRECT: in a run of the widget the indices are stable if and only if everything that is added
    is sorted to the end it is added to. -/
theorem stableIndices_iff (remoteAddress : String) (msgs : List (Msg V)) :
    StableIndices (init remoteAddress) msgs ↔ Each widget Ordered (init remoteAddress) msgs := by
  have hinit : Listed (init remoteAddress : Model V) := listed_init remoteAddress
  constructor
  · intro h
    refine each_of_forall_split fun before msg after hmsgs => ?_
    by_cases hreplaces : Replaces (exec widget (init remoteAddress) before) msg
    · exact ordered_of_replaces hreplaces
    · exact ordered_of_keepsIndices (h.keeps before [msg] after hmsgs ⟨hreplaces, trivial⟩)
  · intro h
    refine ⟨?_, ?_, ?_⟩
    · rintro before between after rfl hreplaces
      exact keepsIndices_exec (listed_exec hinit before) (each_append_left (each_append_right h))
        hreplaces
    · exact each_of_invariant (fun _ msg h _ _ => h.update msg)
        (fun _ msg h _ hordered => newJourneysExact_of_ordered h msg hordered) hinit
        (feasible_of_enabled fun _ _ => trivial) h
    · have hlisted : Always widget Listed (init remoteAddress) msgs :=
        always_of_inductive (fun _ msg h _ => h.update msg) hinit
          (feasible_of_enabled fun _ _ => trivial)
      exact hlisted.imp fun _ h => h.aligned

/-! A search for arrivals, extended once: the earlier arrival departs later. -/

def plainViews : Views where
  Details := Unit
  Parts := Unit
  Graph := Unit
  GraphMsg := Unit
  Options := Unit
  ApiError := Unit
  parts _ := ()
  graph _ _ := ()
  graphUpdate _ _ := ()
  hideTooltips _ := ()

/-- From one station to another, with the times in seconds. -/
def ride (departure arrival : ℤ) : Connection Unit :=
  let event (time : Option ℤ) : EventInfo := ⟨time, time, "", .schedule⟩
  ⟨[⟨⟨"A", "A", 0, 0⟩, event none, event (some (departure * 1000)), false, true⟩,
    ⟨⟨"B", "B", 0, 1⟩, event (some (arrival * 1000)), event none, true, false⟩], (), []⟩

/-- From ten to twelve. -/
def searchRequest (searchDir : SearchDirection) : IntermodalRoutingRequest Unit :=
  ⟨.pretripStart ⟨"A", "A", 0, 0⟩ ⟨⟨36000, 43200⟩, 5, true, true⟩, (), searchDir⟩

def arrivalSearch : List (Msg plainViews) :=
  [.search .replaceResults (searchRequest .backward) none none,
    .receiveResponse .replaceResults (searchRequest .backward) 1
      ⟨[ride 25200 39600], 36000000, 43200000⟩,
    .extendSearchInterval .extendBefore,
    .receiveResponse .prependResults (searchRequest .backward) 2
      ⟨[ride 28800 32400], 28800000, 35999000⟩]

theorem not_stable_arrivalSearch :
    ¬ StableIndices (init "" : Model plainViews) arrivalSearch := by
  intro h
  have hkeeps := h.keeps (arrivalSearch.take 3) (arrivalSearch.drop 3) [] rfl ⟨id, trivial⟩
  have hordered := ordered_of_keepsIndices hkeeps rfl
  have hle := hordered ⟨⟨ride 28800 32400, ()⟩, [""]⟩ (by decide) ⟨⟨ride 25200 39600, ()⟩, [""]⟩
    (List.mem_mergeSort.mpr (by decide))
  exact absurd hle (by decide)

end Motis.Ui
