import Motis.Core.Common.FwsRefinement

/-! The limit on buckets: a growth to more than `MAX_ENTRIES_PER_BUCKET` slots throws.

    The limit holds in every state, also in those where a sum has left the range of `SizeType` and
    the storage invariant is lost: `Capped` only follows the sizes and capacities of the index and
    the free lists. -/

namespace Motis.DynamicFwsMultimap
open Slots Fallible

variable {T D : Type}

/-- Every bucket is within the limit, whatever the storage looks like. -/
structure Capped (m : Multimap T D) : Prop where
  buckets : ∀ e ∈ m.index, e.size ≤ e.capacity ∧ e.capacity ≤ maxEntriesPerBucket
  free : ∀ k, ∀ e ∈ m.freeBuckets.getD k [], e.capacity = 2 ^ k

theorem Capped.length_le {m : Multimap T D} (h : Capped m) (i : ℕ) :
    (m.bucket i).length ≤ maxEntriesPerBucket := by
  have hlen : (m.bucket i).length ≤ (m.idx i).size := List.length_take_le ..
  by_cases hi : i < m.index.length
  · have := h.buckets _ (idx_mem hi)
    omega
  · rw [idx_of_le (Nat.not_lt.mp hi)] at hlen
    exact hlen.trans (Nat.zero_le _)

theorem Capped.operatorIndex {m : Multimap T D} (h : Capped m) (i : ℕ) :
    Capped (m.operatorIndex i) := by
  unfold Multimap.operatorIndex
  split
  · refine ⟨fun e he => ?_, h.free⟩
    rcases List.mem_append.mp he with hold | hnew
    · exact h.buckets e (List.mem_of_mem_take hold)
    · rw [List.eq_of_mem_replicate hnew]
      exact ⟨le_rfl, Nat.zero_le _⟩
  · exact h

theorem getOrder_ok {n k : ℕ} (h : getOrder n = .ok k) :
    k ≤ log2MaxEntriesPerBucket ∧ n = 2 ^ k := by
  unfold getOrder at h
  split at h
  · next o hfind =>
    obtain rfl : o = k := by simpa using h
    have hmem := List.mem_range.mp (List.mem_of_find?_eq_some hfind)
    exact ⟨by omega, (by simpa using List.find?_some hfind : 2 ^ o = n).symm⟩
  · cases h

theorem moveEntries_ok [EntriesMoved T D] {m m' : Multimap T D} {i b b' s : ℕ}
    (h : m.moveEntries i b b' s = .ok m') :
    m'.index = m.index ∧ m'.freeBuckets = m.freeBuckets := by
  rw [moveEntries_eq] at h
  generalize (if s = 0 then Except.ok m.derived else _) = x at h
  cases x with
  | error e => cases h
  | ok d => obtain rfl : _ = m' := Except.ok.inj h; exact ⟨rfl, rfl⟩

theorem getD_set_mem {fs : List (List IndexType)} {k j : ℕ} {v : List IndexType} {e : IndexType}
    (h : e ∈ (fs.set k v).getD j []) : (k = j ∧ e ∈ v) ∨ e ∈ fs.getD j [] := by
  rw [List.getD_eq_getElem?_getD, List.getElem?_set] at h
  split at h
  · next hkj =>
    split at h
    · exact Or.inl ⟨hkj, h⟩
    · simp at h
  · exact Or.inr h

theorem releaseBucket_ok {m m' : Multimap T D} {b : IndexType} (h : m.releaseBucket b = .ok m') :
    m'.index = m.index ∧ ((∀ k, ∀ e ∈ m.freeBuckets.getD k [], e.capacity = 2 ^ k) →
      ∀ k, ∀ e ∈ m'.freeBuckets.getD k [], e.capacity = 2 ^ k) := by
  unfold Multimap.releaseBucket at h
  split at h
  · obtain ⟨o, ho, h⟩ := bind_ok h
    obtain rfl : _ = m' := Except.ok.inj h
    refine ⟨rfl, fun hfree k e he => ?_⟩
    rcases getD_set_mem he with ⟨rfl, hmem⟩ | hmem
    · rcases List.mem_append.mp hmem with hold | hnew
      · exact hfree o e hold
      · rw [List.mem_singleton.mp hnew]; exact (getOrder_ok ho).2
    · exact hfree k e hmem
  · obtain rfl : m = m' := Except.ok.inj h
    exact ⟨rfl, id⟩

theorem getFreeBucket_cases (m : Multimap T D) (k : ℕ) :
    m.getFreeBucket k = (m, none) ∨ ∃ fb fs, fb ∈ m.freeBuckets.getD k [] ∧
      m.getFreeBucket k = ({ m with freeBuckets := fs }, some fb) ∧
      ∀ j, ∀ e ∈ fs.getD j [], e ∈ m.freeBuckets.getD j [] := by
  unfold Multimap.getFreeBucket
  simp only
  split
  · next fb hlast =>
    refine Or.inr ⟨fb, _, List.mem_of_getLast? hlast, rfl, fun j e he => ?_⟩
    rcases getD_set_mem he with ⟨rfl, hmem⟩ | hmem
    · exact (List.dropLast_sublist _).subset hmem
    · exact hmem
  · exact Or.inl rfl

/-- A growth that does not throw gives the bucket a block within the limit. -/
theorem growBucket_ok [Inhabited T] [EntriesMoved T D] {m m' : Multimap T D} {i n : ℕ}
    (hfree : ∀ k, ∀ e ∈ m.freeBuckets.getD k [], e.capacity = 2 ^ k)
    (h : m.growBucket i n = .ok m') :
    ∃ b c, n ≤ c ∧ c ≤ maxEntriesPerBucket ∧
      m'.index = m.index.set i { m.idx i with begin := b, capacity := c } ∧
      ∀ k, ∀ e ∈ m'.freeBuckets.getD k [], e.capacity = 2 ^ k := by
  unfold Multimap.growBucket at h
  obtain ⟨o, ho, h⟩ := bind_ok h
  obtain ⟨hole, hpow⟩ := getOrder_ok ho
  have hn : n ≤ 2 ^ o := hpow ▸ le_nextPowerOfTwo n
  have hcap : (2 : ℕ) ^ o ≤ maxEntriesPerBucket := Nat.pow_le_pow_right (by omega) hole
  simp only [if_neg (Nat.not_lt.mpr hole)] at h
  rcases getFreeBucket_cases m o with hnone | ⟨fb, fs, hmem, hsome, hsub⟩
  · rw [hnone] at h
    simp only [hpow] at h
    split at h
    · obtain rfl : _ = m' := Except.ok.inj h
      exact ⟨(m.idx i).begin, 2 ^ o, hn, hcap, rfl, hfree⟩
    · obtain ⟨m₁, hmove, h⟩ := bind_ok h
      obtain ⟨hindex, hlists⟩ := moveEntries_ok hmove
      obtain ⟨hindex', hlists'⟩ := releaseBucket_ok h
      refine ⟨m.data.length, 2 ^ o, hn, hcap, ?_, hlists' ?_⟩
      · rw [hindex', Multimap.setIdx, hindex]; rfl
      · simp only [Multimap.setIdx, hlists]; exact hfree
  · rw [hsome] at h
    simp only [pure_bind] at h
    have hfb : fb.capacity = 2 ^ o := hfree o fb hmem
    have hfs : ∀ k, ∀ e ∈ fs.getD k [], e.capacity = 2 ^ k := fun k e he => hfree k e (hsub k e he)
    refine ⟨fb.begin, fb.capacity, hfb ▸ hn, hfb ▸ hcap, ?_⟩
    split at h
    · obtain ⟨m₁, hmove, h⟩ := bind_ok h
      obtain ⟨m₂, hrel, h⟩ := bind_ok h
      obtain ⟨hindex, hlists⟩ := moveEntries_ok hmove
      obtain ⟨hindex', hlists'⟩ := releaseBucket_ok hrel
      obtain rfl : _ = m' := Except.ok.inj h
      exact ⟨by rw [Multimap.setIdx, hindex', hindex], hlists' (by rw [hlists]; exact hfs)⟩
    · obtain rfl : _ = m' := Except.ok.inj h
      exact ⟨rfl, hfs⟩

theorem Capped.pushBackEntry [Inhabited T] [EntriesMoved T D] {m : Multimap T D} {i : ℕ} {v : T}
    {r : Multimap T D × ℕ} (hc : Capped m) (h : m.pushBackEntry i v = .ok r) : Capped r.1 := by
  unfold Multimap.pushBackEntry Multimap.insertNewEntry at h
  obtain ⟨⟨m₂, slot⟩, hins, h⟩ := bind_ok h
  obtain rfl : _ = r := Except.ok.inj h
  -- the bucket has room before the entry is added
  have hroom : ∃ m₁ : Multimap T D, Capped m₁ ∧
      (i < m₁.index.length → (m₁.idx i).size + 1 ≤ (m₁.idx i).capacity) ∧
      m₂ = m₁.setIdx i { m₁.idx i with size := (m₁.idx i).size + 1 } := by
    split at hins
    · next hfull =>
      obtain ⟨m₁, hgrow, hins⟩ := bind_ok hins
      obtain ⟨b, c, hn, hle, hindex, hfree⟩ := growBucket_ok hc.free hgrow
      refine ⟨m₁, ⟨fun e he => ?_, hfree⟩, fun hi => ?_,
        (Prod.ext_iff.mp (Except.ok.inj hins)).1.symm⟩
      · rw [hindex] at he
        rcases List.mem_or_eq_of_mem_set he with hold | rfl
        · exact hc.buckets e hold
        · exact ⟨by simp only; omega, hle⟩
      · rw [hindex, List.length_set] at hi
        rw [idx_of_set_self hi hindex]
        simp only
        omega
    · next hfull =>
      refine ⟨m, hc, fun hi => ?_, (Prod.ext_iff.mp (Except.ok.inj hins)).1.symm⟩
      have := (hc.buckets _ (idx_mem hi)).1
      omega
  obtain ⟨m₁, hc₁, hfit, rfl⟩ := hroom
  refine ⟨fun e he => ?_, hc₁.free⟩
  by_cases hi : i < m₁.index.length
  · rcases List.mem_or_eq_of_mem_set he with hold | rfl
    · exact hc₁.buckets e hold
    · exact ⟨hfit hi, (hc₁.buckets _ (idx_mem hi)).2⟩
  · simp only [Multimap.setIdx, List.set_eq_of_length_le (Nat.not_lt.mp hi)] at he
    exact hc₁.buckets e he

end Motis.DynamicFwsMultimap
