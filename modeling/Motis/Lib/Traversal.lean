import Mathlib.Data.Finset.Card
import Mathlib.Data.Finset.Image
import Mathlib.Data.List.Nodup
import Mathlib.Logic.Relation

/-! Depth-first traversal of a graph.

    A traversal enters a node when it sees it for the first time, visits its successors, and leaves
    it:

        succ a = [b, c],  succ b = [c],  succ c = [a]

        enter a   enter b   enter c   leave c   leave b   leave a -/

namespace Traversal

inductive Event (α : Type) where
  | enter (x : α)
  | leave (x : α)
  deriving DecidableEq, Repr

variable {α : Type}

/-- The nodes that are entered, in order. -/
def entered (events : List (Event α)) : List α :=
  events.filterMap fun
    | .enter x => some x
    | .leave _ => none

/-- The nodes that are left, in order. -/
def left (events : List (Event α)) : List α :=
  events.filterMap fun
    | .enter _ => none
    | .leave x => some x

@[simp] theorem entered_nil : entered ([] : List (Event α)) = [] := rfl

@[simp] theorem left_nil : left ([] : List (Event α)) = [] := rfl

@[simp] theorem entered_enter (x : α) (events : List (Event α)) :
    entered (.enter x :: events) = x :: entered events := rfl

@[simp] theorem entered_leave (x : α) (events : List (Event α)) :
    entered (.leave x :: events) = entered events := rfl

@[simp] theorem left_enter (x : α) (events : List (Event α)) :
    left (.enter x :: events) = left events := rfl

@[simp] theorem left_leave (x : α) (events : List (Event α)) :
    left (.leave x :: events) = x :: left events := rfl

@[simp] theorem entered_append (a b : List (Event α)) :
    entered (a ++ b) = entered a ++ entered b := List.filterMap_append

@[simp] theorem left_append (a b : List (Event α)) : left (a ++ b) = left a ++ left b :=
  List.filterMap_append

variable (succ : α → List α)

/-- The events of a visit of `x`; `none`: it went deeper than `fuel`. -/
def visit [DecidableEq α] : ℕ → List α → α → Option (List (Event α))
  | 0, _, _ => none
  | fuel + 1, visited, x =>
    if x ∈ visited then some [] else do
      let events ← (succ x).foldlM (fun events y => do
        let more ← visit fuel (visited ++ entered events) y
        return events ++ more) [.enter x]
      return events ++ [.leave x]

/-- There is an edge from a node to another. -/
def Edge (x y : α) : Prop := y ∈ succ x

abbrev Reachable : α → α → Prop := Relation.ReflTransGen (Edge succ)

variable {succ}

/-- What a loop keeps, once for each element. -/
theorem foldlM_invariant {β γ : Type} {f : β → γ → Option β} (P : List γ → β → Prop) {l : List γ}
    {b r : β} (h : l.foldlM f b = some r) (hinit : P [] b)
    (hstep : ∀ done a b b', P done b → a ∈ l → f b a = some b' → P (done ++ [a]) b') : P l r := by
  induction l using List.reverseRecOn generalizing r with
  | nil =>
    obtain rfl := Option.some.inj h
    exact hinit
  | append_singleton l a ih =>
    rw [List.foldlM_append] at h
    obtain ⟨b', hb', h⟩ := Option.bind_eq_some_iff.mp h
    have hlast : f b' a = some r := by simpa using h
    refine hstep l a b' r (ih hb' fun done a b b' hP ha hf => ?_) (by simp) hlast
    exact hstep done a b b' hP (List.mem_append_left _ ha) hf

/-- The nodes entered by a visit are new, and all that can be reached from them was visited. -/
structure Visited (succ : α → List α) (visited : List α) (x : α) (events : List (Event α)) :
    Prop where
  nodup : (visited ++ entered events).Nodup
  perm : (left events).Perm (entered events)
  mem : x ∈ visited ++ entered events
  last : x ∉ visited → (left events).getLast? = some x
  reachable : ∀ y ∈ entered events, Reachable succ x y
  closed : ∀ y ∈ entered events, ∀ z ∈ succ y, z ∈ visited ++ entered events

/-- A visit of `x` whose successors `done` were visited. -/
structure Visiting (succ : α → List α) (visited : List α) (x : α) (done : List α)
    (events : List (Event α)) : Prop where
  nodup : (visited ++ entered events).Nodup
  perm : (x :: left events).Perm (entered events)
  reachable : ∀ y ∈ entered events, Reachable succ x y
  closed : ∀ y ∈ entered events, y ≠ x → ∀ z ∈ succ y, z ∈ visited ++ entered events
  done : ∀ y ∈ done, y ∈ visited ++ entered events

theorem Visiting.next {visited done : List α} {x y : α} {events more : List (Event α)}
    (h : Visiting succ visited x done events) (hy : y ∈ succ x)
    (hmore : Visited succ (visited ++ entered events) y more) :
    Visiting succ visited x (done ++ [y]) (events ++ more) := by
  have hassoc : visited ++ entered (events ++ more) =
      visited ++ entered events ++ entered more := by simp
  constructor
  · rw [hassoc]
    exact hmore.nodup
  · rw [left_append, entered_append, ← List.cons_append]
    exact h.perm.append hmore.perm
  · intro z hz
    rw [entered_append] at hz
    rcases List.mem_append.mp hz with hz | hz
    · exact h.reachable z hz
    · exact .head hy (hmore.reachable z hz)
  · intro z hz hne w hw
    rw [hassoc]
    rw [entered_append] at hz
    rcases List.mem_append.mp hz with hz | hz
    · exact List.mem_append_left _ (h.closed z hz hne w hw)
    · exact hmore.closed z hz w hw
  · intro z hz
    rw [hassoc]
    rcases List.mem_append.mp hz with hz | hz
    · exact List.mem_append_left _ (h.done z hz)
    · obtain rfl := List.mem_singleton.mp hz
      exact hmore.mem

theorem Visiting.leave {visited : List α} {x : α} {events : List (Event α)}
    (h : Visiting succ visited x (succ x) events) :
    Visited succ visited x (events ++ [.leave x]) := by
  have hentered : entered (events ++ [.leave x]) = entered events := by simp
  have hx : x ∈ entered events := h.perm.subset List.mem_cons_self
  constructor
  · rw [hentered]
    exact h.nodup
  · rw [hentered, left_append]
    exact (List.perm_append_singleton x (left events)).trans h.perm
  · rw [hentered]
    exact List.mem_append_right _ hx
  · intro _
    simp
  · rw [hentered]
    exact h.reachable
  · rw [hentered]
    intro y hy z hz
    rcases eq_or_ne y x with rfl | hne
    · exact h.done z hz
    · exact h.closed y hy hne z hz

variable [DecidableEq α]

theorem visit_spec {fuel : ℕ} {visited : List α} {x : α} {events : List (Event α)}
    (hvisited : visited.Nodup) (h : visit succ fuel visited x = some events) :
    Visited succ visited x events := by
  induction fuel generalizing visited x events with
  | zero => cases h
  | succ fuel ih =>
    rw [visit] at h
    split_ifs at h with hx
    · obtain rfl := Option.some.inj h
      exact ⟨by simpa, .nil, by simpa, fun hnot => absurd hx hnot, by simp, by simp⟩
    · obtain ⟨events', hloop, h⟩ := Option.bind_eq_some_iff.mp h
      obtain rfl := Option.some.inj h
      refine Visiting.leave ?_
      refine foldlM_invariant (fun done events => Visiting succ visited x done events) hloop ?_ ?_
      · have hnodup : (visited ++ [x]).Nodup :=
          hvisited.append (List.nodup_singleton x) (by simpa using hx)
        exact ⟨hnodup, by simp, by simp [Relation.ReflTransGen.refl], by simp, by simp⟩
      · intro done y events events'' hloop hy hstep
        obtain ⟨more, hmore, hstep⟩ := Option.bind_eq_some_iff.mp hstep
        obtain rfl := Option.some.inj hstep
        exact hloop.next hy (ih hloop.nodup hmore)

/-- A traversal enters every reachable node once, and leaves its start last. -/
theorem visit_reaches {fuel : ℕ} {x : α} {events : List (Event α)}
    (h : visit succ fuel [] x = some events) :
    (entered events).Nodup ∧ (∀ y, y ∈ entered events ↔ Reachable succ x y) ∧
      (left events).Perm (entered events) ∧ (left events).getLast? = some x := by
  have hspec := visit_spec List.nodup_nil h
  refine ⟨hspec.nodup, fun y => ⟨hspec.reachable y, fun hy => ?_⟩, hspec.perm,
    hspec.last List.not_mem_nil⟩
  induction hy with
  | refl => exact hspec.mem
  | tail _ hedge ih => exact hspec.closed _ ih _ hedge

/-- A traversal of finitely many nodes ends. -/
theorem exists_visit {nodes : Finset α} (hclosed : ∀ y ∈ nodes, ∀ z ∈ succ y, z ∈ nodes)
    {fuel : ℕ} {visited : List α} {x : α} (hx : x ∈ nodes)
    (hfuel : (nodes \ visited.toFinset).card < fuel) :
    ∃ events, visit succ fuel visited x = some events := by
  induction fuel generalizing visited x with
  | zero => omega
  | succ fuel ih =>
    rw [visit]
    split_ifs with hmem
    · exact ⟨[], rfl⟩
    · have hloop : ∀ (l : List α) (events : List (Event α)), (∀ y ∈ l, y ∈ nodes) →
          x ∈ entered events → ∃ events', l.foldlM (fun events y => do
            let more ← visit succ fuel (visited ++ entered events) y
            return events ++ more) events = some events' := by
        intro l
        induction l with
        | nil => exact fun events _ _ => ⟨events, rfl⟩
        | cons y l ihl =>
          intro events hl hentered
          -- `x` is one of the nodes that are not to be visited any more
          have hlt : (nodes \ (visited ++ entered events).toFinset).card < fuel := by
            have hsub : nodes \ (visited ++ entered events).toFinset ⊂
                nodes \ visited.toFinset := by
              refine Finset.ssubset_iff_subset_ne.mpr ⟨?_, fun heq => ?_⟩
              · intro z
                simp only [Finset.mem_sdiff, List.mem_toFinset, List.mem_append]
                tauto
              · have hnew : x ∈ nodes \ visited.toFinset := by simp [hx, hmem]
                rw [← heq] at hnew
                simp [hentered] at hnew
            have := Finset.card_lt_card hsub
            omega
          obtain ⟨more, hmore⟩ := ih (hl y List.mem_cons_self) hlt
          obtain ⟨events', hrest⟩ := ihl (events ++ more)
            (fun z hz => hl z (List.mem_cons_of_mem _ hz)) (by simp [hentered])
          refine ⟨events', ?_⟩
          rw [List.foldlM_cons, hmore]
          exact hrest
      obtain ⟨events, hevents⟩ := hloop (succ x) [.enter x] (hclosed x hx) (by simp)
      exact ⟨events ++ [.leave x], by rw [hevents]; rfl⟩

end Traversal
