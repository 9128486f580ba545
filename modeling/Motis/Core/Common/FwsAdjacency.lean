import Mathlib.Data.List.Forall2
import Motis.Core.Common.FwsGraph
import Motis.Core.Common.FwsLimit
import Motis.Core.Common.FwsRuns

/-! The two adjacencies of `fws_graph` agree.

    `Holds` is the link the proofs follow: a slot number stands for an edge when some bucket has
    that edge at that slot. Growing a bucket keeps the link up to `movedIndex`, and `entries_moved`
    applies `movedIndex` to every number it concerns; a write keeps the link as it is. Every bucket
    of the backward index then stands, entry by entry, for the edges pushed to its node. -/

namespace Motis.FwsGraph
open Slots Tiling DynamicFwsMultimap

section Spec
variable {N E : Type} [Edge E]

omit [Edge E] in
/-- The edges of the calls, in push order. -/
def pushed : List (Call N E) → List E
  | [] => []
  | .emplaceBackNode _ :: cs => pushed cs
  | .pushBackEdge e :: cs => e :: pushed cs

/-- The endpoints of every edge are among the `n` nodes and those that the calls have added. -/
def EndpointsExist : ℕ → List (Call N E) → Prop
  | _, [] => True
  | n, .emplaceBackNode _ :: cs => EndpointsExist (n + 1) cs
  | n, .pushBackEdge e :: cs => from_ e < n ∧ to_ e < n ∧ EndpointsExist n cs

/-- No sum of the call leaves the range of `SizeType`. -/
def Call.Fits (g : FwsGraph N E) : Call N E → Prop
  | .emplaceBackNode _ => g.nodes.length + 1 < sizeTypeRange
  | .pushBackEdge e =>
    g.edges.slotsNeeded (from_ e) ((g.edges.idx (from_ e)).size + 1) < sizeTypeRange ∧
      g.edges.derived.slotsNeeded (to_ e) ((g.edges.derived.idx (to_ e)).size + 1) < sizeTypeRange

instance (g : FwsGraph N E) : (c : Call N E) → Decidable (c.Fits g)
  | .emplaceBackNode _ => inferInstanceAs (Decidable (_ < _))
  | .pushBackEdge _ => inferInstanceAs (Decidable (_ ∧ _))

/-- No call of the run leaves the range of `SizeType`. -/
def AllFit [Inhabited E] : FwsGraph N E → List (Call N E) → Prop
  | _, [] => True
  | g, c :: cs => c.Fits g ∧ AllFit (call g c) cs

end Spec

/-! ### Rewriting the backward index -/

/-- Numbers of moved slots are not moved again: old and new slots are apart. -/
theorem movedIndex_idem {b b' s : ℕ} (hap : b + s ≤ b' ∨ b' + s ≤ b) (i : ℕ) :
    movedIndex b b' s (movedIndex b b' s i) = movedIndex b b' s i := by
  unfold movedIndex
  split
  · next h => rw [if_neg (by omega)]
  · rfl

theorem movedIndex_of_stay {b b' s : ℕ} (h : s = 0 ∨ b' = b) (i : ℕ) : movedIndex b b' s i = i := by
  unfold movedIndex
  split <;> omega

theorem updateBucket_spec {bwd : BwdMm} (hv : Valid bwd) {n : ℕ} (hn : n < bwd.index.length)
    (f : ℕ → ℕ) :
    ∃ d, updateBucket bwd n f = .ok { bwd with data := d } ∧ d.length = bwd.data.length ∧
      Updated bwd { bwd with data := d } n (List.map f) := by
  set d := overwrite bwd.data (bwd.idx n).begin ((bwd.bucket n).map f) with hd
  have hok : updateBucket bwd n f = .ok { bwd with data := d } := by
    rw [updateBucket, Multimap.checkedAt, if_neg (by omega)]
    rfl
  refine ⟨d, hok, ?_⟩
  rcases Nat.eq_zero_or_pos (bwd.idx n).size with hz | hpos
  · have hnil : bwd.bucket n = [] := by rw [Multimap.bucket, hz, slice_zero]
    have hsame : d = bwd.data := by rw [hd, hnil, List.map_nil, overwrite_nil]
    rw [hsame]
    exact ⟨rfl, hv, rfl, by rw [hnil]; rfl, fun _ _ => rfl⟩
  · have hlen : ((bwd.bucket n).map f).length = (bwd.idx n).size := by
      rw [List.length_map, length_bucket hv n]
    have hsize := hv.size _ (idx_mem hn)
    have hle := hv.bucket_le hn hpos
    have hdlen : d.length = bwd.data.length := length_overwrite (by omega)
    refine ⟨hdlen, updated_of_write hv hn (s := (bwd.idx n).size) ?_ hsize hdlen rfl rfl ?_ ?_⟩
    · rw [idx_eq_getElem hn]
      exact (List.set_getElem_self hn).symm
    · exact fun c t hct => slice_overwrite_of_apart (by omega) (by omega)
    · have hself := slice_overwrite_self (d := bwd.data) (a := (bwd.idx n).begin)
        (l := (bwd.bucket n).map f) (by omega)
      rwa [hlen] at hself

section Graph
variable {N E : Type} [Edge E]

/-- The loop of `entries_moved`: the buckets of all end nodes of `es` are rewritten, however often
    they are visited, and no other bucket is. -/
theorem updateAll_spec {f : ℕ → ℕ} (hf : ∀ i, f (f i) = f i) (es : List E) (bwd : BwdMm)
    (hv : Valid bwd) (hes : ∀ e ∈ es, to_ e < bwd.index.length) :
    ∃ d, es.foldlM (fun bwd e => updateBucket bwd (to_ e) f) bwd = .ok { bwd with data := d } ∧
      d.length = bwd.data.length ∧ Valid { bwd with data := d } ∧
      ∀ n, Multimap.bucket { bwd with data := d } n =
        if n ∈ es.map to_ then (bwd.bucket n).map f else bwd.bucket n := by
  induction es generalizing bwd with
  | nil => exact ⟨bwd.data, rfl, rfl, hv, fun n => by simp⟩
  | cons e es ih =>
    obtain ⟨d, hok, hlen, hu⟩ := updateBucket_spec hv (hes e (List.mem_cons_self ..)) f
    obtain ⟨d', hok', hlen', hv', hb'⟩ := ih { bwd with data := d } hu.valid
      fun e' he' => hes e' (List.mem_cons_of_mem _ he')
    refine ⟨d', ?_, hlen'.trans hlen, hv', fun n => ?_⟩
    · rw [List.foldlM_cons, hok]
      exact hok'
    · have hff : (bwd.bucket n).map (f ∘ f) = (bwd.bucket n).map f :=
        List.map_congr_left fun i _ => hf i
      rw [hb' n, List.map_cons]
      rcases eq_or_ne n (to_ e) with hn | hn
      · subst hn
        rw [hu.self, if_pos (List.mem_cons_self ..), List.map_map, hff]
        split <;> rfl
      · rw [hu.other n hn]
        simp only [List.mem_cons, hn, false_or]

/-! ### Slots of edges -/

/-- Slot `i` is the slot of the stored edge `e`. -/
def Holds (m : EdgeMm E) (i : ℕ) (e : E) : Prop :=
  ∃ k t, t < (m.idx k).size ∧ i = (m.idx k).begin + t ∧ (m.bucket k)[t]? = some e

omit [Edge E] in
theorem Holds.getElem? {m : EdgeMm E} {i : ℕ} {e : E} (h : Holds m i e) :
    m.data[i]? = some e := by
  obtain ⟨k, t, ht, rfl, he⟩ := h
  rwa [Multimap.bucket, getElem?_slice, if_pos ht] at he

omit [Edge E] in
/-- Slots of different buckets differ. -/
theorem Holds.bucket_eq {m : EdgeMm E} (hv : Valid m) {j k t : ℕ} (ht : t < (m.idx j).size)
    (hlo : (m.idx k).begin ≤ (m.idx j).begin + t)
    (hhi : (m.idx j).begin + t < (m.idx k).begin + (m.idx k).size) : j = k := by
  by_contra hne
  have hj := lt_of_size_pos (m := m) (i := j) (by omega)
  have hk := lt_of_size_pos (m := m) (i := k) (by omega)
  have hsj := hv.size _ (idx_mem hj)
  have hsk := hv.size _ (idx_mem hk)
  have hposj : 0 < (m.idx j).capacity := by omega
  have hposk : 0 < (m.idx k).capacity := by omega
  have hap := (hv.apart hj hk hne).le_or_le hposj hposk
  simp only [IndexType.span] at hap
  omega

omit [Edge E] in
/-- Growing bucket `k` moves the slots of its edges and no others. -/
theorem Holds.moved {m m' : EdgeMm E} {i k n : ℕ} {e : E} (hv : Valid m) (hr : Relocated m m' k n)
    (h : Holds m i e) :
    Holds m' (movedIndex (m.idx k).begin (m'.idx k).begin (m.idx k).size i) e := by
  obtain ⟨j, t, ht, rfl, he⟩ := h
  have hj := lt_of_size_pos (m := m) (i := j) (by omega)
  rcases eq_or_ne j k with hjk | hjk
  · subst hjk
    refine ⟨j, t, by rw [hr.idx_size hj]; exact ht, ?_, by rw [hr.bucket_eq]; exact he⟩
    rw [movedIndex, if_pos ⟨by omega, by omega⟩]
    omega
  · have hidx : m'.idx j = m.idx j := idx_of_set_ne (Ne.symm hjk) hr.index_eq
    refine ⟨j, t, by rw [hidx]; exact ht, ?_, by rw [hr.bucket_eq]; exact he⟩
    rw [hidx, movedIndex, if_neg fun hin => hjk (Holds.bucket_eq hv ht hin.1 hin.2)]

/-- Making room in a bucket of `edges_`: the whole backward index follows the move. -/
theorem reserve_edges [Inhabited E] {m : EdgeMm E} {i n : ℕ} (hv : Valid m) (hbwd : Valid m.derived)
    (hi : i < m.index.length) (hmax : n ≤ maxEntriesPerBucket)
    (hfit : m.slotsNeeded i n < sizeTypeRange)
    (hends : ∀ e ∈ m.bucket i, to_ e < m.derived.index.length)
    (hin : ∀ k, ∀ x ∈ m.derived.bucket k, ∃ e, Holds m x e ∧ to_ e = k) :
    ∃ m' d, m.reserve i n = .ok { m' with derived := { m.derived with data := d } } ∧
      Relocated m m' i n ∧ d.length = m.derived.data.length ∧
      Valid { m.derived with data := d } ∧
      ∀ k, Multimap.bucket { m.derived with data := d } k =
        (m.derived.bucket k).map (movedIndex (m.idx i).begin (m'.idx i).begin (m.idx i).size) := by
  -- nothing moves: the numbers stay
  have hstay : ∀ m' : EdgeMm E, m.reserve i n = .ok m' → Relocated m m' i n →
      ((m.idx i).size = 0 ∨ (m'.idx i).begin = (m.idx i).begin) →
      ∃ m' d, m.reserve i n = .ok { m' with derived := { m.derived with data := d } } ∧
        Relocated m m' i n ∧ d.length = m.derived.data.length ∧
        Valid { m.derived with data := d } ∧
        ∀ k, Multimap.bucket { m.derived with data := d } k = (m.derived.bucket k).map
          (movedIndex (m.idx i).begin (m'.idx i).begin (m.idx i).size) := by
    intro m' hok hr hz
    refine ⟨m', m.derived.data, ?_, hr, rfl, hbwd, fun k => ?_⟩
    · rw [hok, ← hr.derived_eq]
    · rw [List.map_congr_left fun x _ => movedIndex_of_stay hz x, List.map_id']
  by_cases hroom : n ≤ (m.idx i).capacity
  · exact hstay m (reserve_of_room hroom) (relocated_refl hv hi hroom) (Or.inr rfl)
  · obtain ⟨m', hr, hgrow⟩ := growBucket_spec hv hi (Nat.not_le.mp hroom) hmax hfit
    have hres : m.reserve i n = m.growBucket i n := by
      rw [Multimap.reserve, if_pos (Nat.not_le.mp hroom)]
    rcases hgrow with ⟨hok, hz⟩ | ⟨m₁, hmov, hok⟩
    · exact hstay m' (hres.trans hok) hr hz
    · obtain ⟨d, hd, hlen, hvd, hbd⟩ := updateAll_spec
        (movedIndex_idem hmov.apart) (m.bucket i) m.derived hbwd hends
      have hmoved : EntriesMoved.entriesMoved m₁ i (m.idx i).begin (m'.idx i).begin
          (m.idx i).size = .ok { m.derived with data := d } := by
        change entriesMoved m₁ i _ _ _ = _
        rw [entriesMoved, Multimap.checkedAt, hmov.index_eq, if_neg (by omega), hmov.bucket_eq,
          hmov.derived_eq]
        exact hd
      refine ⟨m', d, ?_, hr, hlen, hvd, fun k => ?_⟩
      · rw [hres, hok, hmoved]
        rfl
      · rw [hbd k]
        split
        · rfl
        · next hk =>
          -- no edge of the moved bucket ends in `k`
          refine (List.map_id' _).symm.trans (List.map_congr_left fun x hx => ?_)
          obtain ⟨e, ⟨j, t, ht, rfl, he⟩, hto⟩ := hin k x hx
          rw [movedIndex, if_neg fun hrange => hk ?_]
          have hji := Holds.bucket_eq hv ht hrange.1 hrange.2
          subst hji
          exact List.mem_map.mpr ⟨e, List.mem_of_getElem? he, hto⟩

/-! ### The calls -/

/-- The graph of the edges `es`: both adjacencies list them in push order. -/
structure Agrees (g : FwsGraph N E) (es : List E) : Prop where
  fwd : Valid g.edges
  bwd : Valid g.edges.derived
  fwdNodes : g.edges.index.length = g.nodes.length
  bwdNodes : g.edges.derived.index.length = g.nodes.length
  ends : ∀ e ∈ es, to_ e < g.nodes.length
  outgoing : ∀ n, g.edges.bucket n = es.filter (from_ · = n)
  incoming : ∀ n, List.Forall₂ (Holds g.edges) (g.edges.derived.bucket n) (es.filter (to_ · = n))

theorem agrees_empty : Agrees ({} : FwsGraph N E) [] where
  fwd := (valid_empty (T := E)).withDerived _
  bwd := valid_empty
  fwdNodes := rfl
  bwdNodes := rfl
  ends := by simp
  outgoing := fun n => rfl
  incoming := fun n => List.Forall₂.nil

/-- A new node has no edges. -/
theorem emplaceBackNode_agrees {g : FwsGraph N E} {es : List E} (h : Agrees g es) (n : N)
    (hfit : (Call.emplaceBackNode (E := E) n).Fits g) : Agrees (g.emplaceBackNode n) es := by
  have hfit : g.nodes.length + 1 < sizeTypeRange := hfit
  have hindex : toSizeType g.nodes.length = g.nodes.length := Nat.mod_eq_of_lt (by omega)
  have hlen : ∀ {T D : Type} (m : Multimap T D), m.index.length = g.nodes.length →
      (m.operatorIndex g.nodes.length).index.length = g.nodes.length + 1 := by
    intro T D m hm
    rw [operatorIndex_eq m hfit]
    simp [hm]
  have hvf := (operatorIndex_spec h.fwd hfit).1
  have hvb := (operatorIndex_spec h.bwd hfit).1
  have hderived : (g.edges.operatorIndex g.nodes.length).derived = g.edges.derived := by
    rw [operatorIndex_eq _ hfit]
  have hbwd :
      (g.emplaceBackNode n).edges.derived = g.edges.derived.operatorIndex g.nodes.length := by
    simp only [emplaceBackNode, initNodeEdges, hindex, hderived]
  have hidx : ∀ k, (g.emplaceBackNode n).edges.idx k = g.edges.idx k := by
    intro k
    simp only [emplaceBackNode, initNodeEdges, hindex]
    exact idx_operatorIndex g.edges hfit k
  have hbucket : ∀ k, (g.emplaceBackNode n).edges.bucket k = g.edges.bucket k := by
    intro k
    simp only [emplaceBackNode, initNodeEdges, hindex]
    exact bucket_operatorIndex g.edges hfit k
  refine ⟨?_, ?_, ?_, ?_, fun e he => ?_, fun k => ?_, fun k => ?_⟩
  · simp only [emplaceBackNode, initNodeEdges, hindex]
    exact hvf.withDerived _
  · rw [hbwd]; exact hvb
  · simp only [emplaceBackNode, initNodeEdges, hindex, List.length_append, List.length_singleton]
    exact hlen g.edges h.fwdNodes
  · rw [hbwd, hlen _ h.bwdNodes]
    simp [emplaceBackNode, initNodeEdges]
  · have := h.ends e he
    simp only [emplaceBackNode, initNodeEdges, List.length_append, List.length_singleton]
    omega
  · rw [hbucket]; exact h.outgoing k
  · rw [hbwd, bucket_operatorIndex _ hfit]
    refine (h.incoming k).imp fun x e => ?_
    rintro ⟨j, t, ht, rfl, he⟩
    exact ⟨j, t, by rw [hidx]; exact ht, by rw [hidx], by rw [hbucket]; exact he⟩

variable [Inhabited E]

omit [Edge E] [Inhabited E] in
/-- Appending to a bucket leaves every edge where it is, and puts the new one into its slot. -/
theorem Holds.push {m m' : EdgeMm E} {k : ℕ} {v : E} (hv : Valid m) (hk : k < m.index.length)
    (hindex : m'.index = m.index.set k { m.idx k with size := (m.idx k).size + 1 })
    (hu : Updated m m' k (· ++ [v])) :
    (∀ i e, Holds m i e → Holds m' i e) ∧ Holds m' ((m.idx k).begin + (m.idx k).size) v := by
  have hself := idx_of_set_self hk hindex
  have hlen := length_bucket hv k
  refine ⟨?_, k, (m.idx k).size, by rw [hself]; exact Nat.lt_succ_self _, by rw [hself], ?_⟩
  · rintro i e ⟨j, t, ht, rfl, he⟩
    rcases eq_or_ne j k with hjk | hjk
    · subst hjk
      refine ⟨j, t, by rw [hself]; exact Nat.lt_succ_of_lt ht, by rw [hself], ?_⟩
      rw [hu.self, List.getElem?_append_left (by omega)]
      exact he
    · have hidx := idx_of_set_ne (Ne.symm hjk) hindex
      exact ⟨j, t, by rw [hidx]; exact ht, by rw [hidx], by rw [hu.other j hjk]; exact he⟩
  · rw [hu.self, List.getElem?_append_right (by omega), hlen]
    simp

/-- Edge `e` is now the last one of bucket `i`, in `slot`; the backward index follows the edges by
    `f` from their old slots to their new ones. -/
structure EdgePushed (m m' : EdgeMm E) (i : ℕ) (e : E) (slot : ℕ) (f : ℕ → ℕ) : Prop where
  updated : Updated m m' i (· ++ [e])
  elementCount : m'.elementCount = m.elementCount + 1
  bwd : Valid m'.derived
  length_eq : m'.derived.index.length = m.derived.index.length
  idx_eq : ∀ k, m'.derived.idx k = m.derived.idx k
  slotsNeeded_eq : ∀ k n, m'.derived.slotsNeeded k n = m.derived.slotsNeeded k n
  bucket_eq : ∀ k, m'.derived.bucket k = (m.derived.bucket k).map f
  holds : ∀ x e', Holds m x e' → Holds m' (f x) e'
  new : Holds m' slot e

/-- `edges_[i].push_back(e)`, within the limit. -/
theorem pushBackEntry_edges {m : EdgeMm E} {i : ℕ} (hv : Valid m) (hbwd : Valid m.derived)
    (hi : i < m.index.length) (hmax : (m.idx i).size + 1 ≤ maxEntriesPerBucket)
    (hfit : m.slotsNeeded i ((m.idx i).size + 1) < sizeTypeRange)
    (hends : ∀ e ∈ m.bucket i, to_ e < m.derived.index.length)
    (hin : ∀ k, ∀ x ∈ m.derived.bucket k, ∃ e, Holds m x e ∧ to_ e = k) (e : E) :
    ∃ m' slot f, m.pushBackEntry i e = .ok (m', slot) ∧ EdgePushed m m' i e slot f := by
  -- room for the edge
  obtain ⟨m₁, d, hres, hr, hdlen, hvd, hbd⟩ := reserve_edges hv hbwd hi hmax hfit hends hin
  set bwd : BwdMm := { m.derived with data := d } with hbwd'
  set m₂ : EdgeMm E := { m₁ with derived := bwd } with hm₂
  have hvm : Valid m₂ := hr.valid.withDerived bwd
  have hlt : i < m₂.index.length := by rw [hm₂, hr.length_eq]; exact hi
  have hsize : (m₂.idx i).size = (m.idx i).size := hr.idx_size hi
  have hroom : (m₂.idx i).size + 1 ≤ (m₂.idx i).capacity := by
    rw [hsize]; exact hr.room
  -- the edge is written
  have hu := updated_push hvm hlt hroom e
  set slot := (m₂.idx i).begin + (m₂.idx i).size with hslot
  have hpush : m.pushBackEntry i e = .ok ({ m₂ with
      index := m₂.index.set i { m₂.idx i with size := (m₂.idx i).size + 1 }
      data := overwrite m₂.data slot [e], elementCount := m₂.elementCount + 1 }, slot) := by
    rw [pushBackEntry_eq hv hi, hres]
    rfl
  obtain ⟨hkeep, hnew⟩ := Holds.push hvm hlt rfl hu
  refine ⟨_, slot, _, hpush, ?_, ?_, hvd, rfl, fun _ => rfl, fun k n => ?_, hbd, fun x e' hx => ?_,
    hnew⟩
  · exact ⟨hu.valid, hu.length_eq.trans hr.length_eq, hu.self.trans (by
      have hself : m₂.bucket i = m.bucket i := hr.bucket_eq i
      rw [hself]), fun j hj => (hu.other j hj).trans (hr.bucket_eq j)⟩
  · exact congrArg (· + 1) hr.count_eq
  · have hneed : bwd.slotsNeeded k n = m.derived.slotsNeeded k n := by
      simp only [Multimap.slotsNeeded, hbwd', hdlen]
      rfl
    exact hneed
  · exact hkeep _ _ (Holds.moved hv hr hx : Holds m₁ _ e')

/-- `push_back_edge` adds the edge to both adjacencies. -/
theorem pushBackEdge_agrees {g : FwsGraph N E} {es : List E} {e : E} (h : Agrees g es)
    (hfrom : from_ e < g.nodes.length) (hto : to_ e < g.nodes.length)
    (hout : (es.filter (from_ · = from_ e)).length + 1 ≤ maxEntriesPerBucket)
    (hin : (es.filter (to_ · = to_ e)).length + 1 ≤ maxEntriesPerBucket)
    (hfit : (Call.pushBackEdge (N := N) e).Fits g) :
    Agrees (g.pushBackEdge e).1 (es ++ [e]) := by
  obtain ⟨hfitf, hfitb⟩ := hfit
  have hfi : from_ e < g.edges.index.length := by rw [h.fwdNodes]; exact hfrom
  have hti : to_ e < g.edges.derived.index.length := by rw [h.bwdNodes]; exact hto
  have hmaxf : (g.edges.idx (from_ e)).size + 1 ≤ maxEntriesPerBucket := by
    rw [← length_bucket h.fwd, h.outgoing]; exact hout
  have hmaxb : (g.edges.derived.idx (to_ e)).size + 1 ≤ maxEntriesPerBucket := by
    rw [← length_bucket h.bwd, (h.incoming _).length_eq]; exact hin
  -- the edge is written
  obtain ⟨m, slot, f, hpush, hpushed⟩ := pushBackEntry_edges h.fwd h.bwd hfi hmaxf hfitf
    (fun e' he' => by
      rw [h.outgoing] at he'
      rw [h.bwdNodes]
      exact h.ends e' (List.mem_of_mem_filter he'))
    (fun k x hx => by
      obtain ⟨i, hi, rfl⟩ := List.getElem_of_mem hx
      have hi' := (h.incoming k).length_eq ▸ hi
      exact ⟨_, (h.incoming k).get hi hi', by
        simpa using List.of_mem_filter (List.getElem_mem hi')⟩) e
  have hu := hpushed.updated
  -- its slot goes to the backward index
  have hti' : to_ e < m.derived.index.length := by rw [hpushed.length_eq]; exact hti
  obtain ⟨r, hrok, hub⟩ := pushBack_spec hpushed.bwd hti' slot
    (by rw [hpushed.idx_eq]; exact hmaxb)
    (by rw [hpushed.slotsNeeded_eq, hpushed.idx_eq]; exact hfitb)
  have hresult : (g.pushBackEdge e).1 = { g with edges := { m with derived := r.1 } } := by
    rw [pushBackEdge, operatorIndex_of_lt hfi, hpush]
    simp only
    rw [operatorIndex_of_lt hti', hrok]
  rw [hresult]
  refine ⟨?_, hub.valid, ?_, ?_, ?_, fun n => ?_, fun n => ?_⟩
  · exact hu.valid.withDerived r.1
  · exact hu.length_eq.trans h.fwdNodes
  · exact (hub.length_eq.trans hpushed.length_eq).trans h.bwdNodes
  · intro e' he'
    rcases List.mem_append.mp he' with hold | hnew
    · exact h.ends e' hold
    · rw [List.mem_singleton.mp hnew]; exact hto
  · have hrest : m.bucket n = (es ++ [e]).filter (from_ · = n) := by
      rw [List.filter_append]
      rcases eq_or_ne n (from_ e) with hn | hn
      · subst hn
        rw [hu.self, h.outgoing]
        simp
      · rw [hu.other n hn, h.outgoing]
        simp [Ne.symm hn]
    exact hrest
  · have hold : List.Forall₂ (Holds m) (m.derived.bucket n) (es.filter (to_ · = n)) := by
      rw [hpushed.bucket_eq, List.forall₂_map_left_iff]
      exact (h.incoming n).imp fun x e' hx => hpushed.holds x e' hx
    have hrest : List.Forall₂ (Holds m) (r.1.bucket n) ((es ++ [e]).filter (to_ · = n)) := by
      rw [List.filter_append]
      rcases eq_or_ne n (to_ e) with hn | hn
      · subst hn
        rw [hub.self]
        exact List.rel_append hold (by simpa using hpushed.new)
      · rw [hub.other n hn]
        simpa [Ne.symm hn] using hold
    exact hrest

/-! ### Whole runs -/

theorem calls_agree (cs : List (Call N E)) (g : FwsGraph N E) (es : List E) (h : Agrees g es)
    (hends : EndpointsExist g.nodes.length cs)
    (hout : ∀ n, ((es ++ pushed cs).filter (from_ · = n)).length ≤ maxEntriesPerBucket)
    (hin : ∀ n, ((es ++ pushed cs).filter (to_ · = n)).length ≤ maxEntriesPerBucket)
    (hfits : AllFit g cs) : Agrees (calls g cs) (es ++ pushed cs) := by
  induction cs generalizing g es with
  | nil => simpa [pushed, calls] using h
  | cons c cs ih =>
    obtain ⟨hfit, hfits⟩ := hfits
    cases c with
    | emplaceBackNode n =>
      have hnodes : EndpointsExist (g.emplaceBackNode n).nodes.length cs := by
        rw [emplaceBackNode, initNodeEdges, List.length_append]
        exact hends
      exact ih (g.emplaceBackNode n) es (emplaceBackNode_agrees h n hfit) hnodes hout hin hfits
    | pushBackEdge e =>
      obtain ⟨hfrom, hto, hends⟩ := hends
      have hsplit : es ++ pushed (.pushBackEdge e :: cs) = (es ++ [e]) ++ pushed cs := by
        simp [pushed]
      rw [hsplit] at hout hin ⊢
      have hof := hout (from_ e)
      have hot := hin (to_ e)
      simp only [List.filter_append, List.length_append, List.filter_singleton, decide_true,
        cond_true, List.length_singleton] at hof hot
      have hstep := pushBackEdge_agrees h hfrom hto (by omega) (by omega) hfit
      have hnodes : (g.pushBackEdge e).1.nodes = g.nodes := by
        rw [pushBackEdge]
        split
        · rfl
        · simp only
          split <;> rfl
      rw [← hnodes] at hends
      exact ih (g.pushBackEdge e).1 _ hstep hends hout hin hfits

/-- CORRECT: as long as no node gets more edges than a bucket takes, the outgoing and the incoming
    edges of every node are the edges pushed for it, in push order. -/
theorem adjacencies_agree (cs : List (Call N E)) (hends : EndpointsExist 0 cs)
    (hout : ∀ n, ((pushed cs).filter (from_ · = n)).length ≤ maxEntriesPerBucket)
    (hin : ∀ n, ((pushed cs).filter (to_ · = n)).length ≤ maxEntriesPerBucket)
    (hfits : AllFit {} cs) (n : ℕ) :
    outgoingEdges (calls {} cs) n = (pushed cs).filter (from_ · = n) ∧
      incomingEdges (calls {} cs) n = ((pushed cs).filter (to_ · = n)).map some := by
  have h := calls_agree cs ({} : FwsGraph N E) [] agrees_empty hends (by simpa using hout)
    (by simpa using hin) hfits
  rw [List.nil_append] at h
  refine ⟨h.outgoing n, ?_⟩
  have hslots := (h.incoming n).imp fun x e hx => Holds.getElem? hx
  rw [incomingEdges, ← List.forall₂_eq_eq_eq, List.forall₂_map_left_iff,
    List.forall₂_map_right_iff]
  exact hslots

/-! ### The limit on edges -/

theorem call_capped {g : FwsGraph N E} (h : Capped g.edges) (c : Call N E) :
    Capped (call g c).edges := by
  cases c with
  | emplaceBackNode n => exact ⟨(h.operatorIndex _).buckets, (h.operatorIndex _).free⟩
  | pushBackEdge e =>
    have hindex := h.operatorIndex (from_ e)
    rw [call, pushBackEdge]
    split
    · exact hindex
    · next edges slot hok =>
      have hpush := hindex.pushBackEntry hok
      simp only
      split
      · exact ⟨hpush.buckets, hpush.free⟩
      · exact ⟨hpush.buckets, hpush.free⟩

theorem calls_capped (cs : List (Call N E)) (g : FwsGraph N E) (h : Capped g.edges) :
    Capped (calls g cs).edges := by
  induction cs generalizing g with
  | nil => exact h
  | cons c cs ih => exact ih (call g c) (call_capped h c)

omit [Inhabited E] in
theorem capped_empty : Capped ({} : FwsGraph N E).edges := by
  have h := (agrees_empty (N := N) (E := E)).fwd
  exact ⟨by simp, h.free⟩

omit [Edge E] [Inhabited E] in
theorem pushed_replicate (e : E) (n : ℕ) :
    pushed (List.replicate n (.pushBackEdge (N := N) e)) = List.replicate n e := by
  induction n with
  | zero => rfl
  | succ n ih => rw [List.replicate_succ, pushed, ih, List.replicate_succ]

omit [Inhabited E] in
theorem endpointsExist_replicate {e : E} {n : ℕ} (hf : from_ e < n) (ht : to_ e < n) (k : ℕ) :
    EndpointsExist n (List.replicate k (.pushBackEdge (N := N) e)) := by
  induction k with
  | zero => trivial
  | succ k ih => exact ⟨hf, ht, ih⟩

end Graph

/-! ### Examples -/

/-- `test_edge` of the unit test. -/
structure TestEdge where
  from_ : ℕ := 0
  to_ : ℕ := 0
  weight_ : ℕ := 0
  deriving DecidableEq, Inhabited

instance : Edge TestEdge := ⟨TestEdge.from_, TestEdge.to_⟩

/-- The calls of the example: parallel edges and a loop. -/
def parallelCalls : List (Call Unit TestEdge) :=
  [.emplaceBackNode (), .emplaceBackNode (), .pushBackEdge ⟨0, 1, 5⟩, .pushBackEdge ⟨1, 1, 7⟩,
    .pushBackEdge ⟨0, 1, 8⟩]

/-- The bucket of node 0 moves while node 1 points into it. -/
theorem adjacencies_agree_parallel :
    outgoingEdges (calls {} parallelCalls) 1 = (pushed parallelCalls).filter (from_ · = 1) ∧
      incomingEdges (calls {} parallelCalls) 1 =
        ((pushed parallelCalls).filter (to_ · = 1)).map some := by
  refine adjacencies_agree parallelCalls ?_ ?_ ?_ ?_ 1
  · simp [parallelCalls, EndpointsExist, from_, to_]
  · exact fun n => (List.length_filter_le ..).trans (by decide)
  · exact fun n => (List.length_filter_le ..).trans (by decide)
  · refine ⟨?_, ?_, ?_, ?_, ?_, trivial⟩
    all_goals exact of_decide_eq_true rfl

/-- A node with one loop more than a bucket takes. -/
theorem too_many_loops :
    EndpointsExist 0 (.emplaceBackNode () ::
        List.replicate (maxEntriesPerBucket + 1) (.pushBackEdge (⟨0, 0, 1⟩ : TestEdge))) ∧
      outgoingEdges (calls {} (.emplaceBackNode () ::
        List.replicate (maxEntriesPerBucket + 1) (.pushBackEdge (⟨0, 0, 1⟩ : TestEdge)))) 0 ≠
      (pushed (.emplaceBackNode () ::
        List.replicate (maxEntriesPerBucket + 1) (.pushBackEdge (⟨0, 0, 1⟩ : TestEdge)))).filter
          (from_ · = 0) := by
  refine ⟨endpointsExist_replicate Nat.one_pos Nat.one_pos _, fun h => ?_⟩
  have hle := (calls_capped (.emplaceBackNode () :: List.replicate (maxEntriesPerBucket + 1)
    (.pushBackEdge (⟨0, 0, 1⟩ : TestEdge))) {} capped_empty).length_le 0
  rw [← outgoingEdges, h, pushed, pushed_replicate, List.filter_replicate_of_pos (by decide),
    List.length_replicate] at hle
  omega

end Motis.FwsGraph
