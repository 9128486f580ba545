import Motis.Core.Common.FwsAdjacency

/-! `push_back_edge` and its two containers.

    The edge is first pushed to the outgoing edges of its start node, then its slot to the incoming
    edges of its end node. Either push can throw at the limit; a push that throws has changed no
    bucket, but the first one is not undone when the second one throws:

        edges_[from]     full ──▶ throws, nothing changed
             │ pushed
             ▼
        bwd_[to]         full ──▶ throws, the edge stays in `edges_` -/

namespace Motis.FwsGraph
open Slots DynamicFwsMultimap

section Spec
variable {N E : Type} [Edge E]

def edgeCount (g : FwsGraph N E) : ℕ := g.edges.elementCount

/-- The edge count and all edge lists are the same. -/
structure Unchanged (g g' : FwsGraph N E) : Prop where
  edgeCount : edgeCount g' = edgeCount g
  outgoing : ∀ n, outgoingEdges g' n = outgoingEdges g n
  incoming : ∀ n, incomingEdges g' n = incomingEdges g n

/-- No sum of the call leaves the range of `SizeType`, whether it throws or not. -/
def Call.InRange (g : FwsGraph N E) : Call N E → Prop
  | .emplaceBackNode _ => g.nodes.length + 1 < sizeTypeRange
  | .pushBackEdge e =>
    (Op.pushBack (from_ e) e).Fits g.edges ∧ (Op.pushBack (to_ e) 0).Fits g.edges.derived

def AllInRange [Inhabited E] : FwsGraph N E → List (Call N E) → Prop
  | _, [] => True
  | g, c :: cs => c.InRange g ∧ AllInRange (call g c) cs

/-- Every slot number of the backward index is the slot of an edge to its node. -/
structure Linked (g : FwsGraph N E) : Prop where
  fwd : Valid g.edges
  bwd : Valid g.edges.derived
  ends : ∀ k, ∀ e ∈ g.edges.bucket k, to_ e < g.edges.derived.index.length
  slots : ∀ k, ∀ x ∈ g.edges.derived.bucket k, ∃ e, Holds g.edges x e ∧ to_ e = k

end Spec

section Graph
variable {N E : Type} [Edge E] {g : FwsGraph N E}

theorem linked_empty : Linked ({} : FwsGraph N E) where
  fwd := (valid_empty (T := E)).withDerived _
  bwd := valid_empty
  ends _ _ he := absurd he List.not_mem_nil
  slots _ _ hx := absurd hx List.not_mem_nil

omit [Edge E] in
theorem Holds.operatorIndex {m : EdgeMm E} {i x : ℕ} {e : E} (hi : i + 1 < sizeTypeRange)
    (h : Holds m x e) : Holds (m.operatorIndex i) x e := by
  obtain ⟨k, t, ht, rfl, he⟩ := h
  refine ⟨k, t, ?_, ?_, ?_⟩
  · rwa [idx_operatorIndex m hi]
  · rw [idx_operatorIndex m hi]
  · rwa [bucket_operatorIndex m hi]

omit [Edge E] in
theorem derived_operatorIndex (m : EdgeMm E) (i : ℕ) : (m.operatorIndex i).derived = m.derived := by
  rw [Multimap.operatorIndex]
  split <;> rfl

/-- Creating a missing bucket of outgoing edges. -/
theorem Linked.createOutgoing (h : Linked g) {i : ℕ} (hi : i + 1 < sizeTypeRange) :
    Linked { g with edges := g.edges.operatorIndex i } where
  fwd := (operatorIndex_spec h.fwd hi).1
  bwd := by rw [derived_operatorIndex]; exact h.bwd
  ends k e he := by
    rw [derived_operatorIndex]
    rw [bucket_operatorIndex _ hi] at he
    exact h.ends k e he
  slots k x hx := by
    rw [derived_operatorIndex] at hx
    obtain ⟨e, hholds, hto⟩ := h.slots k x hx
    exact ⟨e, hholds.operatorIndex hi, hto⟩

/-- Creating a missing bucket of incoming edges. -/
theorem Linked.createIncoming (h : Linked g) {i : ℕ} (hi : i + 1 < sizeTypeRange) :
    Linked { g with edges := { g.edges with derived := g.edges.derived.operatorIndex i } } where
  fwd := h.fwd.withDerived _
  bwd := (operatorIndex_spec h.bwd hi).1
  ends k e he := by
    have hlt : to_ e < g.edges.derived.index.length := h.ends k e he
    have hle : g.edges.derived.index.length ≤ (g.edges.derived.operatorIndex i).index.length := by
      rw [operatorIndex_eq _ hi, List.length_append]
      exact Nat.le_add_right ..
    exact hlt.trans_le hle
  slots k x hx := by
    rw [bucket_operatorIndex _ hi] at hx
    exact h.slots k x hx

theorem Linked.emplaceBackNode (h : Linked g) (n : N) (hfit : g.nodes.length + 1 < sizeTypeRange) :
    Linked (g.emplaceBackNode n) := by
  have hindex : toSizeType g.nodes.length = g.nodes.length := Nat.mod_eq_of_lt (by omega)
  rw [FwsGraph.emplaceBackNode, initNodeEdges, hindex]
  have hcreated := (h.createOutgoing hfit).createIncoming hfit
  exact ⟨hcreated.fwd, hcreated.bwd, hcreated.ends, hcreated.slots⟩

omit [Edge E] in
theorem unchanged_createOutgoing {i : ℕ} (hi : i + 1 < sizeTypeRange) :
    Unchanged g { g with edges := g.edges.operatorIndex i } where
  edgeCount := by rw [edgeCount, operatorIndex_eq _ hi]; rfl
  outgoing n := bucket_operatorIndex _ hi n
  incoming n := by rw [incomingEdges, derived_operatorIndex, operatorIndex_eq _ hi]; rfl

variable [Inhabited E]

omit [Edge E] [Inhabited E] in
theorem length_le_operatorIndex {T D : Type} (m : Multimap T D) {i : ℕ} (hi : i + 1 < sizeTypeRange) :
    m.index.length ≤ (m.operatorIndex i).index.length := by
  rw [operatorIndex_eq _ hi, List.length_append]
  exact Nat.le_add_right ..

/-- The state between the two pushes: the edge is in `slot`, the bucket of its end exists. -/
structure HalfPushed (g : FwsGraph N E) (e : E) (m : EdgeMm E) (slot : ℕ) : Prop where
  ok : (g.edges.operatorIndex (from_ e)).pushBackEntry (from_ e) e = .ok (m, slot)
  elementCount : m.elementCount = g.edges.elementCount + 1
  linked : Linked { g with edges := { m with derived := m.derived.operatorIndex (to_ e) } }
  lt : to_ e < (m.derived.operatorIndex (to_ e)).index.length
  holds : Holds m slot e
  idx_eq : ∀ k, m.derived.idx k = g.edges.derived.idx k
  slotsNeeded_eq : ∀ k n, m.derived.slotsNeeded k n = g.edges.derived.slotsNeeded k n

/-- The outgoing push, within the limit. -/
theorem Linked.halfPushed (h : Linked g) {e : E} (hfit : (Op.pushBack (from_ e) e).Fits g.edges)
    (hto : to_ e + 1 < sizeTypeRange)
    (hmax : (g.edges.idx (from_ e)).size + 1 ≤ maxEntriesPerBucket) :
    ∃ m slot, HalfPushed g e m slot := by
  obtain ⟨hfrom, hslots⟩ := hfit
  have hfrom : from_ e + 1 < sizeTypeRange := hfrom
  have h₁ := h.createOutgoing hfrom
  have hlt := (operatorIndex_spec h.fwd hfrom).2.1
  have hmax : ((g.edges.operatorIndex (from_ e)).idx (from_ e)).size + 1 ≤
      maxEntriesPerBucket := by
    rwa [idx_operatorIndex _ hfrom]
  obtain ⟨m, slot, f, hok, hpushed⟩ :=
    pushBackEntry_edges h₁.fwd h₁.bwd hlt hmax (hslots hmax) (h₁.ends _) h₁.slots e
  have hderived := derived_operatorIndex g.edges (from_ e)
  have hcreated := operatorIndex_spec hpushed.bwd hto
  have hle := length_le_operatorIndex m.derived hto
  refine ⟨m, slot, hok, ?_, ⟨?_, hcreated.1, fun k e' he' => ?_, fun k x hx => ?_⟩, hcreated.2.1,
    hpushed.new, fun k => ?_, fun k n => ?_⟩
  · rw [hpushed.elementCount, operatorIndex_eq _ hfrom]
  · exact hpushed.updated.valid.withDerived _
  · -- the new edge ends in the bucket that was created, the others in old ones
    have hold : e' ∈ (g.edges.operatorIndex (from_ e)).bucket k →
        to_ e' < (m.derived.operatorIndex (to_ e)).index.length := by
      intro he'
      have hlt' := h₁.ends k e' he'
      rw [← hpushed.length_eq] at hlt'
      exact hlt'.trans_le hle
    have he' : e' ∈ m.bucket k := he'
    rcases eq_or_ne k (from_ e) with rfl | hk
    · rw [hpushed.updated.self] at he'
      rcases List.mem_append.mp he' with he' | he'
      · exact hold he'
      · rw [List.mem_singleton.mp he']
        exact hcreated.2.1
    · rw [hpushed.updated.other k hk] at he'
      exact hold he'
  · have hx : x ∈ m.derived.bucket k := by rwa [bucket_operatorIndex _ hto] at hx
    rw [hpushed.bucket_eq] at hx
    obtain ⟨y, hy, rfl⟩ := List.mem_map.mp hx
    obtain ⟨e', hholds, hto'⟩ := h₁.slots k y hy
    exact ⟨e', hpushed.holds y e' hholds, hto'⟩
  · rw [hpushed.idx_eq, hderived]
  · rw [hpushed.slotsNeeded_eq, hderived]

omit [Edge E] in
/-- The incoming push. -/
theorem HalfPushed.linked_of_updated [Edge E] {e : E} {m : EdgeMm E} {slot : ℕ}
    (h : HalfPushed g e m slot) {bwd : BwdMm}
    (hu : Updated (m.derived.operatorIndex (to_ e)) bwd (to_ e) (· ++ [slot])) :
    Linked { g with edges := { m with derived := bwd } } where
  fwd := h.linked.fwd.withDerived _
  bwd := hu.valid
  ends k e' he' := by
    have hlt : to_ e' < (m.derived.operatorIndex (to_ e)).index.length := h.linked.ends k e' he'
    rwa [← hu.length_eq] at hlt
  slots k x hx := by
    rcases eq_or_ne k (to_ e) with rfl | hk
    · rw [hu.self] at hx
      rcases List.mem_append.mp hx with hx | hx
      · exact h.linked.slots _ x hx
      · rw [List.mem_singleton.mp hx]
        exact ⟨e, h.holds, rfl⟩
    · rw [hu.other k hk] at hx
      exact h.linked.slots k x hx

omit [Edge E] [Inhabited E] in
/-- A push at the limit. -/
theorem pushBackEntry_error {T D : Type} [Inhabited T] [EntriesMoved T D] {m : Multimap T D}
    {i : ℕ} (hv : Valid m) (hi : i < m.index.length)
    (hmax : maxEntriesPerBucket < (m.idx i).size + 1) (v : T) :
    ∃ err, m.pushBackEntry i v = .error err := by
  obtain ⟨err, herr⟩ := reserve_error hv hi hmax
  exact ⟨err, by rw [pushBackEntry_eq hv hi, herr]; rfl⟩

omit [Edge E] [Inhabited E] in
theorem slotsNeeded_operatorIndex {T D : Type} (m : Multimap T D) {i : ℕ}
    (hi : i + 1 < sizeTypeRange) (k n : ℕ) :
    (m.operatorIndex i).slotsNeeded k n = m.slotsNeeded k n := by
  rw [Multimap.slotsNeeded, Multimap.slotsNeeded, idx_operatorIndex _ hi, operatorIndex_eq _ hi]

omit [Inhabited E] in
/-- The size of a bucket is the number of its edges. -/
theorem Linked.length_outgoing (h : Linked g) (n : ℕ) :
    (outgoingEdges g n).length = (g.edges.idx n).size :=
  length_bucket h.fwd n

omit [Inhabited E] in
theorem Linked.length_incoming (h : Linked g) (n : ℕ) :
    (incomingEdges g n).length = (g.edges.derived.idx n).size := by
  rw [incomingEdges, List.length_map, length_bucket h.bwd]

/-- The three outcomes of `push_back_edge`. -/
theorem Linked.pushBackEdge_cases (h : Linked g) {e : E}
    (hfit : (Call.pushBackEdge (N := N) e).InRange g) :
    (maxEntriesPerBucket ≤ (outgoingEdges g (from_ e)).length ∧ Linked (g.pushBackEdge e).1 ∧
      Unchanged g (g.pushBackEdge e).1 ∧ ∃ err, (g.pushBackEdge e).2 = .error err) ∨
    ((outgoingEdges g (from_ e)).length < maxEntriesPerBucket ∧
      maxEntriesPerBucket ≤ (incomingEdges g (to_ e)).length ∧ Linked (g.pushBackEdge e).1 ∧
      edgeCount (g.pushBackEdge e).1 = edgeCount g + 1 ∧
      ∃ err, (g.pushBackEdge e).2 = .error err) ∨
    ((outgoingEdges g (from_ e)).length < maxEntriesPerBucket ∧
      (incomingEdges g (to_ e)).length < maxEntriesPerBucket ∧ Linked (g.pushBackEdge e).1 ∧
      ∃ slot, (g.pushBackEdge e).2 = .ok slot) := by
  obtain ⟨hfitf, hto, hfitb⟩ := hfit
  have hto : to_ e + 1 < sizeTypeRange := hto
  have hfitb : ((g.edges.derived.operatorIndex (to_ e)).idx (to_ e)).size + 1 ≤
      maxEntriesPerBucket → (g.edges.derived.operatorIndex (to_ e)).slotsNeeded (to_ e)
        (((g.edges.derived.operatorIndex (to_ e)).idx (to_ e)).size + 1) < sizeTypeRange := hfitb
  rw [idx_operatorIndex _ hto, slotsNeeded_operatorIndex _ hto] at hfitb
  have hfrom : from_ e + 1 < sizeTypeRange := hfitf.1
  rw [h.length_outgoing, h.length_incoming]
  rcases Nat.lt_or_ge (g.edges.idx (from_ e)).size maxEntriesPerBucket with hout | hout
  · obtain ⟨m, slot, hhalf⟩ := h.halfPushed hfitf hto hout
    set bwd := m.derived.operatorIndex (to_ e) with hbwd
    have hsize : (bwd.idx (to_ e)).size = (g.edges.derived.idx (to_ e)).size := by
      rw [hbwd, idx_operatorIndex _ hto, hhalf.idx_eq]
    have hlt : to_ e < bwd.index.length := hhalf.lt
    rcases Nat.lt_or_ge (g.edges.derived.idx (to_ e)).size maxEntriesPerBucket with hin | hin
    · have hneeded : bwd.slotsNeeded (to_ e) ((bwd.idx (to_ e)).size + 1) < sizeTypeRange := by
        rw [hsize, hbwd, slotsNeeded_operatorIndex _ hto, hhalf.slotsNeeded_eq]
        exact hfitb hin
      obtain ⟨r, hok, hu⟩ := pushBack_spec hhalf.linked.bwd hlt slot
        (by rw [hsize]; exact hin) hneeded
      have hresult : g.pushBackEdge e =
          ({ g with edges := { m with derived := r.1 } }, .ok slot) := by
        simp only [pushBackEdge, hhalf.ok, ← hbwd]
        rw [hok]
      rw [hresult]
      exact Or.inr (Or.inr ⟨hout, hin, hhalf.linked_of_updated hu, slot, rfl⟩)
    · obtain ⟨err, herr⟩ := pushBackEntry_error hhalf.linked.bwd hlt
        (by rw [hsize]; exact Nat.lt_succ_of_le hin) slot
      have hresult : g.pushBackEdge e =
          ({ g with edges := { m with derived := bwd } }, .error err) := by
        simp only [pushBackEdge, hhalf.ok, ← hbwd]
        rw [herr]
      rw [hresult]
      exact Or.inr (Or.inl ⟨hout, hin, hhalf.linked, hhalf.elementCount, err, rfl⟩)
  · have h₁ := operatorIndex_spec h.fwd hfrom
    obtain ⟨err, herr⟩ := pushBackEntry_error h₁.1 h₁.2.1
      (by rw [idx_operatorIndex _ hfrom]; exact Nat.lt_succ_of_le hout) e
    have hresult : g.pushBackEdge e =
        ({ g with edges := g.edges.operatorIndex (from_ e) }, .error err) := by
      rw [pushBackEdge, herr]
    rw [hresult]
    exact Or.inl ⟨hout, h.createOutgoing hfrom, unchanged_createOutgoing hfrom, err, rfl⟩

/-! ### Whole runs -/

theorem Linked.call (h : Linked g) (c : Call N E) (hfit : c.InRange g) : Linked (call g c) := by
  cases c with
  | emplaceBackNode n => exact h.emplaceBackNode n hfit
  | pushBackEdge e =>
    rcases h.pushBackEdge_cases hfit with ⟨-, hlinked, -⟩ | ⟨-, -, hlinked, -⟩ | ⟨-, -, hlinked, -⟩
    all_goals exact hlinked

theorem Linked.calls : ∀ (cs : List (Call N E)) {g : FwsGraph N E}, Linked g → AllInRange g cs →
    Linked (calls g cs)
  | [], _, h, _ => h
  | c :: cs, _, h, ⟨hfit, hfits⟩ => Linked.calls cs (h.call c hfit) hfits

/-- A call that throws changes nothing, or leaves one edge more than before. -/
theorem Linked.atomic_iff (h : Linked g) {e : E} (hfit : (Call.pushBackEdge (N := N) e).InRange g) :
    (∀ err, (g.pushBackEdge e).2 = .error err → Unchanged g (g.pushBackEdge e).1) ↔
      maxEntriesPerBucket ≤ (outgoingEdges g (from_ e)).length ∨
        (incomingEdges g (to_ e)).length < maxEntriesPerBucket := by
  rcases h.pushBackEdge_cases hfit with ⟨hout, -, hunchanged, -⟩ | ⟨hout, hin, -, hcount, err, herr⟩ |
    ⟨-, hin, -, slot, hok⟩
  · exact iff_of_true (fun _ _ => hunchanged) (Or.inl hout)
  · refine iff_of_false (fun hall => ?_) (by omega)
    have hsame := (hall err herr).edgeCount
    omega
  · refine iff_of_true (fun err herr => ?_) (Or.inr hin)
    rw [hok] at herr
    cases herr

/-- In every state that a run reaches, a `push_back_edge` that throws leaves the graph as it was if
    and only if the outgoing bucket is at its limit, or the incoming one is not. -/
theorem atomic_iff_limit (cs : List (Call N E)) (e : E) (hfits : AllInRange {} cs)
    (hfit : (Call.pushBackEdge (N := N) e).InRange (calls {} cs)) :
    (∀ err, ((calls {} cs).pushBackEdge e).2 = .error err →
      Unchanged (calls {} cs) ((calls {} cs).pushBackEdge e).1) ↔
      maxEntriesPerBucket ≤ (outgoingEdges (calls {} cs) (from_ e)).length ∨
        (incomingEdges (calls {} cs) (to_ e)).length < maxEntriesPerBucket :=
  (Linked.calls cs linked_empty hfits).atomic_iff hfit

end Graph

/-- Parallel edges and a loop, far from the limit. -/
theorem atomic_iff_limit_parallel :
    (∀ err, ((calls {} parallelCalls).pushBackEdge (⟨0, 1, 9⟩ : TestEdge)).2 = .error err →
      Unchanged (calls {} parallelCalls) ((calls {} parallelCalls).pushBackEdge ⟨0, 1, 9⟩).1) ↔
      maxEntriesPerBucket ≤ (outgoingEdges (calls {} parallelCalls) 0).length ∨
        (incomingEdges (calls {} parallelCalls) 1).length < maxEntriesPerBucket := by
  have hnode : 0 + 1 < sizeTypeRange ∧ 1 + 1 < sizeTypeRange := ⟨of_decide_eq_true rfl,
    of_decide_eq_true rfl⟩
  refine atomic_iff_limit parallelCalls ⟨0, 1, 9⟩ ⟨hnode.1, hnode.2, ⟨⟨hnode.1, fun _ => ?_⟩,
    hnode.2, fun _ => ?_⟩, ⟨⟨hnode.2, fun _ => ?_⟩, hnode.2, fun _ => ?_⟩,
    ⟨⟨hnode.1, fun _ => ?_⟩, hnode.2, fun _ => ?_⟩, trivial⟩
    ⟨⟨hnode.1, fun _ => ?_⟩, hnode.2, fun _ => ?_⟩
  all_goals exact of_decide_eq_true rfl

/-! ### A node with as many loops as a bucket takes -/

/-- Bucket 0 has `k` entries and all slots, the other buckets are empty. -/
structure Solo {T D : Type} (m : Multimap T D) (k : ℕ) : Prop where
  lt : 0 < m.index.length
  first : m.idx 0 = { begin := 0, size := k, capacity := m.data.length }
  others : ∀ j ≠ 0, m.idx j = {}
  free : ∀ j, m.freeBuckets.getD j [] = []
  size_le : k ≤ m.data.length
  length_le : m.data.length ≤ maxEntriesPerBucket

section Solo
variable {T D : Type} [Inhabited T] [EntriesMoved T D] {m : Multimap T D} {k : ℕ}

theorem nextPowerOfTwo_le_max {n : ℕ} (h : n ≤ maxEntriesPerBucket) :
    nextPowerOfTwo n ≤ maxEntriesPerBucket :=
  Nat.pow_le_pow_right (by omega) (clog_le_of_le_max h)

theorem max_lt_sizeTypeRange : maxEntriesPerBucket + 1 < sizeTypeRange := by
  rw [maxEntriesPerBucket, sizeTypeRange, log2MaxEntriesPerBucket]
  omega

omit [Inhabited T] [EntriesMoved T D] in
theorem Solo.withDerived (h : Solo m k) (d : D) : Solo { m with derived := d } k :=
  ⟨h.lt, h.first, h.others, h.free, h.size_le, h.length_le⟩

/-- There is room for one more entry in place. -/
theorem Solo.reserve (h : Solo m k) (hk : k < maxEntriesPerBucket) :
    ∃ m', m.reserve 0 (k + 1) = .ok m' ∧ Solo m' k ∧ k + 1 ≤ m'.data.length ∧
      m'.derived = m.derived := by
  have hmax : nextPowerOfTwo (k + 1) ≤ maxEntriesPerBucket := nextPowerOfTwo_le_max hk
  have hnext := le_nextPowerOfTwo (k + 1)
  have hrange := max_lt_sizeTypeRange
  have hcapacity : (m.idx 0).capacity = m.data.length := by rw [h.first]
  have hbegin : (m.idx 0).begin = 0 := by rw [h.first]
  rcases Nat.lt_or_ge k m.data.length with hroom | hfull
  · exact ⟨m, reserve_of_room (by omega), h, hroom, rfl⟩
  · have hlength : m.data.length = k := le_antisymm hfull h.size_le
    have hgrow := growBucket_last (n := k + 1) hk (h.free _)
      (by omega : (m.idx 0).begin + _ = _) (by omega)
    have hsum : m.data.length + (nextPowerOfTwo (k + 1) - (m.idx 0).capacity) =
        nextPowerOfTwo (k + 1) := by
      omega
    rw [hsum] at hgrow
    rw [Multimap.reserve, if_pos (by omega), hgrow]
    refine ⟨_, rfl, ⟨by simpa using h.lt, ?_, fun j hj => ?_, h.free, ?_, ?_⟩, ?_, rfl⟩
    · rw [idx_of_set_self h.lt rfl, h.first, length_resize]
    · rw [idx_of_set_ne (Ne.symm hj) rfl, h.others j hj]
    all_goals
      rw [length_resize]
      omega

theorem Solo.pushBackEntry (h : Solo m k) (hv : Valid m) (hk : k < maxEntriesPerBucket) (v : T) :
    ∃ m' slot, m.pushBackEntry 0 v = .ok (m', slot) ∧ Solo m' (k + 1) ∧ m'.derived = m.derived := by
  obtain ⟨m₁, hok, h₁, hroom, hderived⟩ := h.reserve hk
  have hsize : (m.idx 0).size = k := by rw [h.first]
  rw [pushBackEntry_eq hv h.lt, hsize, hok]
  have hlength : (overwrite m₁.data ((m₁.idx 0).begin + (m₁.idx 0).size) [v]).length =
      m₁.data.length := by
    rw [h₁.first]
    exact length_overwrite (by simpa using hroom)
  refine ⟨_, _, rfl, ⟨by simpa using h₁.lt, ?_, fun j hj => ?_, h₁.free, ?_, ?_⟩, hderived⟩
  · rw [idx_of_set_self h₁.lt rfl, h₁.first]
    simpa [h₁.first] using hlength.symm
  · rw [idx_of_set_ne (Ne.symm hj) rfl, h₁.others j hj]
  · exact hlength ▸ hroom
  · exact hlength ▸ h₁.length_le

omit [Inhabited T] [EntriesMoved T D] in
/-- The slots for one more entry of bucket 0. -/
theorem Solo.slotsNeeded (h : Solo m k) (hk : k < maxEntriesPerBucket) :
    m.slotsNeeded 0 (k + 1) < sizeTypeRange := by
  have hmax : nextPowerOfTwo (k + 1) ≤ maxEntriesPerBucket := nextPowerOfTwo_le_max hk
  have hlength := h.length_le
  have hrange := max_lt_sizeTypeRange
  rw [Multimap.slotsNeeded, h.first, h.free]
  simp only [ne_eq, not_true_eq_false, if_false, Nat.zero_add, if_true]
  split <;> omega

omit [Inhabited T] [EntriesMoved T D] in
theorem Solo.fits (h : Solo m k) (hk : k < maxEntriesPerBucket) (v : T) :
    (Op.pushBack 0 v).Fits m := by
  refine ⟨(of_decide_eq_true rfl : 0 + 1 < sizeTypeRange), fun _ => ?_⟩
  have hsize : (m.idx 0).size = k := by rw [h.first]
  change (m.operatorIndex 0).slotsNeeded 0 (((m.operatorIndex 0).idx 0).size + 1) < _
  rw [operatorIndex_of_lt h.lt, hsize]
  exact h.slotsNeeded hk

omit [Inhabited T] [EntriesMoved T D] in
/-- An entry for bucket 1 needs a slot at the end. -/
theorem Solo.fits_second (h : Solo m k) (v : T) : (Op.pushBack 1 v).Fits m := by
  have hone : 1 + 1 < sizeTypeRange := of_decide_eq_true rfl
  refine ⟨hone, fun _ => ?_⟩
  change (m.operatorIndex 1).slotsNeeded 1 (((m.operatorIndex 1).idx 1).size + 1) < _
  rw [slotsNeeded_operatorIndex _ hone, idx_operatorIndex _ hone, Multimap.slotsNeeded,
    h.others 1 Nat.one_ne_zero, h.free]
  have hnew : nextPowerOfTwo (0 + 1) = 1 := rfl
  have hlength := h.length_le
  have hrange := max_lt_sizeTypeRange
  simp only [hnew]
  split
  · omega
  · split
    · omega
    · split <;> omega

end Solo

/-- Two nodes, and `k` loops at the first one. -/
def loopCalls (k : ℕ) : List (Call Unit TestEdge) :=
  [.emplaceBackNode (), .emplaceBackNode ()] ++ List.replicate k (.pushBackEdge ⟨0, 0, 1⟩)

theorem loopCalls_succ (k : ℕ) :
    loopCalls (k + 1) = loopCalls k ++ [.pushBackEdge ⟨0, 0, 1⟩] := by
  rw [loopCalls, List.replicate_succ', ← List.append_assoc, loopCalls]

theorem allInRange_concat {N E : Type} [Edge E] [Inhabited E] {c : Call N E} :
    ∀ {cs : List (Call N E)} {g : FwsGraph N E}, AllInRange g cs → c.InRange (calls g cs) →
      AllInRange g (cs ++ [c])
  | [], _, _, hc => ⟨hc, trivial⟩
  | _ :: _, _, ⟨hfit, hfits⟩, hc => ⟨hfit, allInRange_concat hfits hc⟩

/-- One more loop. -/
theorem Solo.pushBackEdge {g : FwsGraph Unit TestEdge} {k : ℕ} (hg : Linked g)
    (hedges : Solo g.edges k) (hbwd : Solo g.edges.derived k) (hk : k < maxEntriesPerBucket) :
    Solo (g.pushBackEdge ⟨0, 0, 1⟩).1.edges (k + 1) ∧
      Solo (g.pushBackEdge ⟨0, 0, 1⟩).1.edges.derived (k + 1) := by
  obtain ⟨m, slot, hok, hm, hderived⟩ := hedges.pushBackEntry hg.fwd hk (⟨0, 0, 1⟩ : TestEdge)
  obtain ⟨bwd, slot', hok', hbwd', -⟩ := hbwd.pushBackEntry hg.bwd hk slot
  have hfrom : from_ (⟨0, 0, 1⟩ : TestEdge) = 0 := rfl
  have hto : to_ (⟨0, 0, 1⟩ : TestEdge) = 0 := rfl
  have hresult : (g.pushBackEdge ⟨0, 0, 1⟩).1 = { g with edges := { m with derived := bwd } } := by
    rw [FwsGraph.pushBackEdge, hfrom, hto, operatorIndex_of_lt hedges.lt, hok]
    simp only
    rw [hderived, operatorIndex_of_lt hbwd.lt, hok']
  rw [hresult]
  exact ⟨hm.withDerived bwd, hbwd'⟩

theorem loopCalls_spec : ∀ k ≤ maxEntriesPerBucket, AllInRange {} (loopCalls k) ∧
    Solo (calls {} (loopCalls k)).edges k ∧ Solo (calls {} (loopCalls k)).edges.derived k
  | 0, _ => by
    refine ⟨⟨(of_decide_eq_true rfl : 0 + 1 < sizeTypeRange),
      (of_decide_eq_true rfl : 1 + 1 < sizeTypeRange), trivial⟩, ?_, ?_⟩
    all_goals
      refine ⟨of_decide_eq_true rfl, rfl, fun j hj => ?_, fun j => ?_, Nat.zero_le _, Nat.zero_le _⟩
      · match j with
        | 0 | 1 | j + 2 => rfl
      · change (List.replicate (log2MaxEntriesPerBucket + 1) ([] : List IndexType)).getD j [] = []
        rw [List.getD_eq_getElem?_getD, List.getElem?_replicate]
        split <;> rfl
  | k + 1, hk => by
    obtain ⟨hfits, hedges, hbwd⟩ := loopCalls_spec k (by omega)
    have hlinked := Linked.calls _ linked_empty hfits
    have hstep := hedges.pushBackEdge hlinked hbwd hk
    have hcalls : calls {} (loopCalls (k + 1)) =
        ((calls {} (loopCalls k)).pushBackEdge (⟨0, 0, 1⟩ : TestEdge)).1 := by
      rw [loopCalls_succ, calls, List.foldl_append]
      rfl
    rw [hcalls]
    refine ⟨?_, hstep⟩
    rw [loopCalls_succ]
    exact allInRange_concat hfits ⟨hedges.fits hk _, hbwd.fits hk _⟩

/-- The edge from the second node to the first one is pushed, but not its slot. -/
theorem Solo.not_atomic {g : FwsGraph Unit TestEdge} {k : ℕ} (hg : Linked g)
    (hedges : Solo g.edges k) (hbwd : Solo g.edges.derived k) (hk : k = maxEntriesPerBucket) :
    (Call.pushBackEdge (N := Unit) (⟨1, 0, 1⟩ : TestEdge)).InRange g ∧
      ¬∀ err, (g.pushBackEdge (⟨1, 0, 1⟩ : TestEdge)).2 = .error err →
        Unchanged g (g.pushBackEdge ⟨1, 0, 1⟩).1 := by
  have hfit : (Call.pushBackEdge (N := Unit) (⟨1, 0, 1⟩ : TestEdge)).InRange g := by
    refine ⟨hedges.fits_second _, (of_decide_eq_true rfl : 0 + 1 < sizeTypeRange), fun hmax => ?_⟩
    change ((g.edges.derived.operatorIndex 0).idx 0).size + 1 ≤ _ at hmax
    rw [operatorIndex_of_lt hbwd.lt, hbwd.first] at hmax
    simp only at hmax
    omega
  refine ⟨hfit, fun h => ?_⟩
  have hlimit := (hg.atomic_iff hfit).mp h
  have hout : (g.edges.idx (from_ (⟨1, 0, 1⟩ : TestEdge))).size = 0 := by
    have hfrom : from_ (⟨1, 0, 1⟩ : TestEdge) = 1 := rfl
    rw [hfrom, hedges.others 1 Nat.one_ne_zero]
  have hin : (g.edges.derived.idx (to_ (⟨1, 0, 1⟩ : TestEdge))).size = k := by
    have hto : to_ (⟨1, 0, 1⟩ : TestEdge) = 0 := rfl
    rw [hto, hbwd.first]
  have hpos : 0 < maxEntriesPerBucket := Nat.two_pow_pos _
  rw [hg.length_outgoing, hg.length_incoming, hout, hin] at hlimit
  omega

/-- A run to a full incoming bucket. -/
theorem not_atomic_loops : ¬∀ (cs : List (Call Unit TestEdge)) (e : TestEdge), AllInRange {} cs →
    (Call.pushBackEdge (N := Unit) e).InRange (calls {} cs) →
      ∀ err, ((calls {} cs).pushBackEdge e).2 = .error err →
        Unchanged (calls {} cs) ((calls {} cs).pushBackEdge e).1 := by
  intro h
  obtain ⟨hfits, hedges, hbwd⟩ := loopCalls_spec maxEntriesPerBucket le_rfl
  have hlinked := Linked.calls _ linked_empty hfits
  obtain ⟨hfit, hnot⟩ := Solo.not_atomic hlinked hedges hbwd rfl
  exact hnot (h _ _ hfits hfit)

end Motis.FwsGraph
