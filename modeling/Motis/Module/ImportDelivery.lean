import Mathlib.Data.Finset.Card
import Mathlib.Data.List.Nodup
import Motis.Module.EventCollector

/-! What the importers do with one message.

    An importer runs the operation of its collector or changes nothing another one sees, and a
    collector that has run never runs again. So one message lets some collectors run that have not
    run before, each once, and the queue grows by what their operations publish. -/

namespace Motis.Module

variable {Msg : Type} {isSuccess : Msg → Bool}

/-- An importer runs the operation, with what is then kept, or publishes nothing. -/
theorem onMsg_cases (isSuccess : Msg → Bool) (op : Dependencies Msg → List Msg)
    (req : Requirement Msg) (c : EventCollector Msg) (msg : Msg) :
    let r := c.onMsg isSuccess op req msg
    (r.1.executed = c.executed ∧ r.1.runs = c.runs ∧ r.2 = []) ∨
      (c.executed = false ∧ r.1.executed = true ∧
        ∃ deps, r.1.runs = c.runs ++ [deps] ∧ r.2 = op deps) := by
  intro r
  have hr : r = c.onMsg isSuccess op req msg := rfl
  rw [EventCollector.onMsg] at hr
  split_ifs at hr with hsuccess hmatcher hexecuted
  · exact .inl (by simp [hr])
  · exact .inl (by simp [hr])
  · exact .inl (by simp [hr])
  · dsimp only at hr
    split_ifs at hr
    · exact .inl (by simp [hr])
    · refine .inr ⟨by simpa using hexecuted, by simp [hr], ?_⟩
      exact ⟨c.dependencies.insert req.name msg, by simp [hr], by simp [hr]⟩

/-- The collectors `fired` have run their operations, with these arguments; all of them are among
    `ids`, and none has run before. -/
structure Delivered (op : ℕ → Dependencies Msg → List Msg) (ids : List ℕ)
    (d d' : ImportDispatcher Msg) (fired : List (ℕ × Dependencies Msg)) : Prop where
  importers : d'.importers = d.importers
  processed : d'.processed = d.processed
  queue : d'.publishQueue = d.publishQueue ++ fired.flatMap fun f => op f.1 f.2
  runs : ∀ i, (d'.collectors i).runs =
    (d.collectors i).runs ++ (fired.filter (·.1 == i)).map (·.2)
  executed : ∀ i, (d'.collectors i).executed = true ↔
    (d.collectors i).executed = true ∨ i ∈ fired.map (·.1)
  distinct : (fired.map (·.1)).Nodup
  fresh : ∀ f ∈ fired, (d.collectors f.1).executed = false
  among : ∀ f ∈ fired, f.1 ∈ ids

section Delivery
variable {op : ℕ → Dependencies Msg → List Msg} {ids ids' : List ℕ}
  {d d' d'' : ImportDispatcher Msg} {fired fired' : List (ℕ × Dependencies Msg)}

theorem Delivered.refl (d : ImportDispatcher Msg) : Delivered op [] d d [] := by
  refine ⟨rfl, rfl, ?_, ?_, ?_, List.nodup_nil, ?_, ?_⟩ <;> simp

theorem Delivered.trans (h : Delivered op ids d d' fired) (h' : Delivered op ids' d' d'' fired') :
    Delivered op (ids ++ ids') d d'' (fired ++ fired') := by
  refine ⟨h'.importers.trans h.importers, h'.processed.trans h.processed, ?_, fun i => ?_,
    fun i => ?_, ?_, fun f hf => ?_, fun f hf => ?_⟩
  · rw [h'.queue, h.queue, List.flatMap_append, List.append_assoc]
  · rw [h'.runs, h.runs, List.filter_append, List.map_append, List.append_assoc]
  · rw [h'.executed, h.executed, List.map_append, List.mem_append, or_assoc]
  · rw [List.map_append]
    refine h.distinct.append h'.distinct fun i hi hi' => ?_
    obtain ⟨f, hf, rfl⟩ := List.mem_map.mp hi'
    have hexecuted := (h.executed f.1).mpr (.inr hi)
    rw [h'.fresh f hf] at hexecuted
    cases hexecuted
  · rcases List.mem_append.mp hf with hf | hf
    · exact h.fresh f hf
    · have hnot := mt (h.executed f.1).mpr (by simp [h'.fresh f hf])
      simpa using fun hexecuted => hnot (.inl hexecuted)
  · rcases List.mem_append.mp hf with hf | hf
    · exact List.mem_append_left _ (h.among f hf)
    · exact List.mem_append_right _ (h'.among f hf)

/-- One importer. -/
theorem deliver_spec (isSuccess : Msg → Bool) (op : ℕ → Dependencies Msg → List Msg) (m : Msg)
    (d : ImportDispatcher Msg) (a : Importer Msg) :
    ∃ fired, Delivered op [a.collector] d (d.deliver isSuccess op m a) fired := by
  have hother : ∀ i, i ≠ a.collector →
      (d.deliver isSuccess op m a).collectors i = d.collectors i := by
    intro i hi
    simp [ImportDispatcher.deliver, Function.update_of_ne hi]
  have hself : (d.deliver isSuccess op m a).collectors a.collector =
      ((d.collectors a.collector).onMsg isSuccess (op a.collector) a.requirement m).1 := by
    simp [ImportDispatcher.deliver]
  have hqueue : (d.deliver isSuccess op m a).publishQueue = d.publishQueue ++
      ((d.collectors a.collector).onMsg isSuccess (op a.collector) a.requirement m).2 := rfl
  rcases onMsg_cases isSuccess (op a.collector) a.requirement
    (d.collectors a.collector) m with ⟨hexecuted, hruns, hpublished⟩ |
      ⟨hfresh, hexecuted, deps, hruns, hpublished⟩
  · refine ⟨[], rfl, rfl, ?_, fun i => ?_, fun i => ?_, List.nodup_nil, ?_, ?_⟩
    · simp [hqueue, hpublished]
    · rcases eq_or_ne i a.collector with rfl | hi
      · simp [hself, hruns]
      · simp [hother i hi]
    · rcases eq_or_ne i a.collector with rfl | hi
      · simp [hself, hexecuted]
      · simp [hother i hi]
    · simp
    · simp
  · refine ⟨[(a.collector, deps)], rfl, rfl, ?_, fun i => ?_, fun i => ?_, ?_, ?_, ?_⟩
    · simp [hqueue, hpublished]
    · rcases eq_or_ne i a.collector with rfl | hi
      · simp [hself, hruns]
      · simp [hother i hi, hi.symm]
    · rcases eq_or_ne i a.collector with rfl | hi
      · simp [hself, hexecuted]
      · simp [hother i hi, hi]
    · simp
    · simp [hfresh]
    · simp

/-- All importers. -/
theorem foldl_deliver_spec (isSuccess : Msg → Bool) (op : ℕ → Dependencies Msg → List Msg)
    (m : Msg) (importers : List (Importer Msg)) (d : ImportDispatcher Msg) :
    ∃ fired, Delivered op (importers.map (·.collector)) d
      (importers.foldl (ImportDispatcher.deliver isSuccess op m) d) fired := by
  induction importers generalizing d with
  | nil => exact ⟨[], .refl d⟩
  | cons a importers ih =>
    obtain ⟨fired, hfirst⟩ := deliver_spec isSuccess op m d a
    obtain ⟨fired', hrest⟩ := ih (d.deliver isSuccess op m a)
    exact ⟨fired ++ fired', hfirst.trans hrest⟩

/-! ### Collectors that have not run -/

/-- The subscribed collectors that have not run. -/
def ImportDispatcher.unexecuted (d : ImportDispatcher Msg) : Finset ℕ :=
  (d.importers.map (·.collector)).toFinset.filter fun i => (d.collectors i).executed = false

/-- Every operation that runs leaves one collector less that has not run. -/
theorem Delivered.card_unexecuted (h : Delivered op ids d d' fired)
    (hids : ids ⊆ d.importers.map (·.collector)) :
    d'.unexecuted.card + fired.length = d.unexecuted.card := by
  have hunion : d.unexecuted = d'.unexecuted ∪ (fired.map (·.1)).toFinset := by
    ext i
    have hexecuted := h.executed i
    have hfresh : i ∈ fired.map (·.1) →
        (d.collectors i).executed = false ∧ i ∈ d.importers.map (·.collector) := by
      intro hi
      obtain ⟨f, hf, rfl⟩ := List.mem_map.mp hi
      exact ⟨h.fresh f hf, hids (h.among f hf)⟩
    simp only [ImportDispatcher.unexecuted, h.importers, Finset.mem_filter, Finset.mem_union,
      List.mem_toFinset]
    cases hd : (d.collectors i).executed <;> cases hd' : (d'.collectors i).executed <;> simp_all
  have hdisjoint : Disjoint d'.unexecuted (fired.map (·.1)).toFinset := by
    rw [Finset.disjoint_left]
    intro i hi hfired
    have hexecuted := (h.executed i).mpr (.inr (List.mem_toFinset.mp hfired))
    rw [(Finset.mem_filter.mp hi).2] at hexecuted
    cases hexecuted
  rw [hunion, Finset.card_union_of_disjoint hdisjoint, List.toFinset_card_of_nodup h.distinct,
    List.length_map]

end Delivery

end Motis.Module
