import Mathlib.Algebra.GroupWithZero.Nat
import Motis.Lib.Fallible
import Motis.Lib.Tiling
import Motis.Core.Common.DynamicFwsMultimap

/-! The storage invariant of `dynamic_fws_multimap` and what growing a bucket does to it.

    The blocks of the buckets and the free blocks tile `data_`. Growing a bucket either trades its
    block for a free one, or extends the last block, or appends a block at the end: each is one edit
    of the tiling. `growBucket_spec` says all a growth can do, the call of `entries_moved` included;
    every later proof uses it in place of the definition. -/

namespace Motis.DynamicFwsMultimap
open Slots Tiling Fallible

/-- The block of a bucket or of a free-list entry. -/
def IndexType.span (e : IndexType) : Span := (e.begin, e.capacity)

variable {T D : Type}

namespace Multimap

/-- Every block: those of the buckets and those recorded as free. -/
def blocks (m : Multimap T D) : List Span :=
  (m.index ++ m.freeBuckets.flatten).map IndexType.span

/-- The number of slots `data_` must have to give bucket `i` room for `n` entries. -/
def slotsNeeded (m : Multimap T D) (i n : ℕ) : ℕ :=
  let idx := m.idx i
  let newCapacity := nextPowerOfTwo n
  if n ≤ idx.capacity then m.data.length
  else if m.freeBuckets.getD (Nat.clog 2 n) [] ≠ [] then m.data.length
  else if idx.begin + idx.capacity = m.data.length then
    m.data.length + (newCapacity - idx.capacity)
  else m.data.length + newCapacity

end Multimap

/-- The size of a block is zero or a power of two within the limit. -/
def HasOrder (b : IndexType) : Prop :=
  b.capacity ≠ 0 → ∃ k ≤ log2MaxEntriesPerBucket, b.capacity = 2 ^ k

/-- The storage invariant. -/
structure Valid (m : Multimap T D) : Prop where
  tiles : Tiles m.blocks m.data.length
  range : m.data.length < sizeTypeRange
  order : ∀ e ∈ m.index, HasOrder e
  lists : m.freeBuckets.length = log2MaxEntriesPerBucket + 1
  free : ∀ k, ∀ e ∈ m.freeBuckets.getD k [], e.capacity = 2 ^ k
  size : ∀ e ∈ m.index, e.size ≤ e.capacity
  count : m.elementCount = (m.index.map (·.size)).sum

/-- The invariant does not look at what the derived class adds. -/
theorem Valid.withDerived {D' : Type} {m : Multimap T D} (hv : Valid m) (d : D') :
    Valid (Multimap.mk m.index m.data m.freeBuckets m.elementCount d) :=
  ⟨hv.tiles, hv.range, hv.order, hv.lists, hv.free, hv.size, hv.count⟩

/-! ### Buckets, orders and free lists -/

theorem idx_eq_getElem {m : Multimap T D} {i : ℕ} (hi : i < m.index.length) :
    m.idx i = m.index[i] := by simp [Multimap.idx, hi]

theorem idx_mem {m : Multimap T D} {i : ℕ} (hi : i < m.index.length) : m.idx i ∈ m.index := by
  rw [idx_eq_getElem hi]; exact List.getElem_mem hi

theorem lt_of_size_pos {m : Multimap T D} {i : ℕ} (h : 0 < (m.idx i).size) :
    i < m.index.length := by
  by_contra hi
  simp [Multimap.idx, Nat.not_lt.mp hi] at h

/-- A missing bucket reads as the default entry. -/
theorem idx_of_le {m : Multimap T D} {i : ℕ} (hi : m.index.length ≤ i) : m.idx i = {} := by
  simp [Multimap.idx, hi]

theorem idx_of_set_self {m m' : Multimap T D} {i : ℕ} {e : IndexType} (hi : i < m.index.length)
    (h : m'.index = m.index.set i e) : m'.idx i = e := by
  simp [Multimap.idx, h, hi]

theorem idx_of_set_ne {m m' : Multimap T D} {i j : ℕ} {e : IndexType} (hij : i ≠ j)
    (h : m'.index = m.index.set i e) : m'.idx j = m.idx j := by
  simp [Multimap.idx, h, List.getElem?_set_ne hij]

theorem getOrder_pow {k : ℕ} (hk : k ≤ log2MaxEntriesPerBucket) : getOrder (2 ^ k) = .ok k := by
  have hfind : (List.range (log2MaxEntriesPerBucket + 1)).find? (fun o => 2 ^ o == 2 ^ k)
      = some k := by
    rw [List.find?_range_eq_some]
    refine ⟨by simp, by simp; omega, fun j hj => ?_⟩
    have hne : (2 : ℕ) ^ j ≠ 2 ^ k := fun h => absurd (Nat.pow_right_injective le_rfl h) (by omega)
    simpa using hne
  rw [getOrder, hfind]

theorem le_nextPowerOfTwo (n : ℕ) : n ≤ nextPowerOfTwo n := Nat.le_pow_clog (by omega) n

theorem clog_le_of_le_max {n : ℕ} (h : n ≤ maxEntriesPerBucket) :
    Nat.clog 2 n ≤ log2MaxEntriesPerBucket :=
  Nat.clog_le_of_le_pow h

theorem flatten_set_perm {l : List (List IndexType)} {k : ℕ} (hk : k < l.length)
    (v : List IndexType) : (l.set k v).flatten.Perm (v ++ (l.eraseIdx k).flatten) := by
  simpa using (List.set_perm_cons_eraseIdx hk v).flatten

theorem flatten_perm {l : List (List IndexType)} {k : ℕ} (hk : k < l.length) :
    l.flatten.Perm (l.getD k [] ++ (l.eraseIdx k).flatten) := by
  simpa [hk] using (List.getElem_cons_eraseIdx_perm hk).symm.flatten

/-- Popping a free block: it has the size of its order, and only it leaves the free lists. -/
theorem getFreeBucket_some {m : Multimap T D} {k : ℕ} (hv : Valid m)
    (hk : k ≤ log2MaxEntriesPerBucket) (hne : m.freeBuckets.getD k [] ≠ []) :
    ∃ (fb : IndexType) (fs : List (List IndexType)),
      m.getFreeBucket k = ({ m with freeBuckets := fs }, some fb) ∧ fb.capacity = 2 ^ k ∧
      fs.length = m.freeBuckets.length ∧ (∀ j, ∀ e ∈ fs.getD j [], e.capacity = 2 ^ j) ∧
      m.freeBuckets.flatten.Perm (fb :: fs.flatten) := by
  have hlen : k < m.freeBuckets.length := by rw [hv.lists]; omega
  set vec := m.freeBuckets.getD k [] with hvec
  have hlast : vec.getLast? = some (vec.getLast hne) := List.getLast?_eq_some_getLast hne
  refine ⟨vec.getLast hne, m.freeBuckets.set k vec.dropLast, ?_, ?_, by simp, ?_, ?_⟩
  · simp only [Multimap.getFreeBucket, ← hvec, hlast]
  · exact hv.free k _ (List.getLast_mem hne)
  · intro j e he
    rcases eq_or_ne k j with rfl | hkj
    · have hset : (m.freeBuckets.set k vec.dropLast).getD k [] = vec.dropLast := by simp [hlen]
      rw [hset] at he
      exact hv.free k e ((List.dropLast_sublist vec).subset he)
    · have hset : (m.freeBuckets.set k vec.dropLast).getD j [] = m.freeBuckets.getD j [] := by
        simp [List.getElem?_set_ne hkj]
      rw [hset] at he
      exact hv.free j e he
  · have hsplit : vec.Perm (vec.getLast hne :: vec.dropLast) := by
      conv_lhs => rw [← List.dropLast_append_getLast hne]
      exact List.perm_append_singleton ..
    calc m.freeBuckets.flatten.Perm (vec ++ (m.freeBuckets.eraseIdx k).flatten) := flatten_perm hlen
      _ |>.Perm (vec.getLast hne :: (vec.dropLast ++ (m.freeBuckets.eraseIdx k).flatten)) := by
          simpa using hsplit.append_right (m.freeBuckets.eraseIdx k).flatten
      _ |>.Perm _ := ((flatten_set_perm hlen _).symm).cons _

theorem getFreeBucket_none {m : Multimap T D} {k : ℕ} (he : m.freeBuckets.getD k [] = []) :
    m.getFreeBucket k = (m, none) := by
  simp only [Multimap.getFreeBucket, he, List.getLast?_nil]

/-- The free lists after the block of `b`, if it has one, has been released. -/
def freed (fs : List (List IndexType)) (b : IndexType) : List (List IndexType) :=
  let k := Nat.clog 2 b.capacity
  if b.capacity ≠ 0 then fs.set k (fs.getD k [] ++ [{ b with size := 0 }]) else fs

theorem HasOrder.clog {b : IndexType} (h : HasOrder b) (hne : b.capacity ≠ 0) :
    b.capacity = 2 ^ Nat.clog 2 b.capacity ∧
      Nat.clog 2 b.capacity ≤ log2MaxEntriesPerBucket := by
  obtain ⟨k, hk, heq⟩ := h hne
  rw [heq, Nat.clog_pow _ _ (by omega)]
  exact ⟨rfl, hk⟩

@[simp] theorem length_freed (fs : List (List IndexType)) (b : IndexType) :
    (freed fs b).length = fs.length := by
  unfold freed; split <;> simp

theorem releaseBucket_eq {m : Multimap T D} {b : IndexType} (hb : HasOrder b) :
    m.releaseBucket b = .ok { m with freeBuckets := freed m.freeBuckets b } := by
  rw [Multimap.releaseBucket, freed]
  split
  · next hne =>
    have horder : getOrder b.capacity = .ok (Nat.clog 2 b.capacity) := by
      conv_lhs => rw [(hb.clog hne).1]
      exact getOrder_pow (hb.clog hne).2
    rw [horder]
    rfl
  · rfl

/-- Releasing keeps the free lists sorted by block size. -/
theorem freed_capacity {fs : List (List IndexType)} {b : IndexType} (hb : HasOrder b)
    (hfree : ∀ j, ∀ e ∈ fs.getD j [], e.capacity = 2 ^ j) (j : ℕ) :
    ∀ e ∈ (freed fs b).getD j [], e.capacity = 2 ^ j := by
  intro e he
  rw [freed] at he
  split at he
  · next hne =>
    set k := Nat.clog 2 b.capacity with hk
    rw [List.getD_eq_getElem?_getD, List.getElem?_set] at he
    split at he
    · next hkj =>
      subst hkj
      split at he
      · rw [Option.getD_some, List.mem_append, List.mem_singleton] at he
        rcases he with he | rfl
        · exact hfree k e he
        · exact (hb.clog hne).1
      · simp at he
    · exact hfree j e he
  · exact hfree j e he

/-- Releasing adds exactly the released block to the free ones. -/
theorem Tiles.freed {fs : List (List IndexType)} {b : IndexType} {l : List Span} {n : ℕ}
    (hb : HasOrder b) (hlen : fs.length = log2MaxEntriesPerBucket + 1)
    (h : Tiles (b.span :: (l ++ fs.flatten.map IndexType.span)) n) :
    Tiles (l ++ (freed fs b).flatten.map IndexType.span) n := by
  rw [DynamicFwsMultimap.freed]
  split
  · next hne =>
    set k := Nat.clog 2 b.capacity with hk
    have hlt : k < fs.length := by have := (hb.clog hne).2; omega
    have hset := (flatten_set_perm hlt (fs.getD k [] ++ [{ b with size := 0 }])).map IndexType.span
    have hfs := (flatten_perm hlt).map IndexType.span
    refine h.perm ((List.Perm.append_left l (hset.trans ?_)).trans List.perm_middle)
    refine List.Perm.trans ?_ (hfs.symm.cons b.span)
    simp only [List.map_append, List.append_assoc, List.map_cons, List.map_nil]
    exact List.perm_middle
  · next hz =>
    have hz : b.capacity = 0 := by omega
    rwa [IndexType.span, hz, tiles_empty_cons] at h

/-- The blocks, with the one of bucket `i` in front. -/
theorem blocks_perm {m : Multimap T D} {i : ℕ} (hi : i < m.index.length) :
    m.blocks.Perm ((m.idx i).span ::
      ((m.index.eraseIdx i).map IndexType.span ++ m.freeBuckets.flatten.map IndexType.span)) := by
  rw [Multimap.blocks, List.map_append, ← List.cons_append, idx_eq_getElem hi]
  refine List.Perm.append_right _ ?_
  simpa using (List.getElem_cons_eraseIdx_perm hi).symm.map IndexType.span

theorem blocks_perm_of_set {m m' : Multimap T D} {i : ℕ} {e : IndexType} (hi : i < m.index.length)
    (h : m'.index = m.index.set i e) :
    m'.blocks.Perm (e.span ::
      ((m.index.eraseIdx i).map IndexType.span ++ m'.freeBuckets.flatten.map IndexType.span)) := by
  rw [Multimap.blocks, List.map_append, ← List.cons_append, h]
  refine List.Perm.append_right _ ?_
  simpa using (List.set_perm_cons_eraseIdx hi e).map IndexType.span

/-- Replacing one index entry exchanges its size in the sum of all bucket sizes. -/
theorem sum_size_of_set {m m' : Multimap T D} {i : ℕ} {e : IndexType} (hi : i < m.index.length)
    (h : m'.index = m.index.set i e) :
    (m'.index.map (·.size)).sum + (m.idx i).size = (m.index.map (·.size)).sum + e.size := by
  have hnew := ((List.set_perm_cons_eraseIdx hi e).map (·.size)).sum_nat
  have hold := ((List.getElem_cons_eraseIdx_perm hi).map (·.size)).sum_nat
  simp only [List.map_cons, List.sum_cons] at hnew hold
  rw [h, hnew, ← hold, idx_eq_getElem hi]
  omega

/-- A bucket's block lies inside `data_`. -/
theorem Valid.block_le {m : Multimap T D} (hv : Valid m) {i : ℕ} (hi : i < m.index.length)
    (hpos : 0 < (m.idx i).capacity) : (m.idx i).begin + (m.idx i).capacity ≤ m.data.length :=
  hv.tiles.le (List.mem_map_of_mem (List.mem_append_left _ (idx_mem hi))) hpos

theorem Valid.bucket_le {m : Multimap T D} (hv : Valid m) {i : ℕ} (hi : i < m.index.length)
    (hpos : 0 < (m.idx i).size) : (m.idx i).begin + (m.idx i).size ≤ m.data.length := by
  have hsize := hv.size _ (idx_mem hi)
  have := hv.block_le hi (by omega)
  omega

/-- The entries of two buckets never share a slot. -/
theorem Valid.apart {m : Multimap T D} (hv : Valid m) {i j : ℕ} (hi : i < m.index.length)
    (hj : j < m.index.length) (hij : i ≠ j) : Apart (m.idx i).span (m.idx j).span := by
  have hpw := (hv.tiles.perm (blocks_perm hi).symm).pairwise
  refine (List.pairwise_cons.mp hpw).1 _ (List.mem_append_left _ (List.mem_map_of_mem ?_))
  rw [idx_eq_getElem hj]
  exact List.mem_eraseIdx_iff_getElem.mpr ⟨j, hj, by omega, rfl⟩

/-! ### Growing a bucket -/

/-- Bucket `i` has got another block with room for `n` entries; every bucket keeps its entries. -/
structure Relocated (m m' : Multimap T D) (i n : ℕ) : Prop where
  valid : Valid m'
  index_eq : m'.index = m.index.set i
    { m.idx i with begin := (m'.idx i).begin, capacity := (m'.idx i).capacity }
  bucket_eq : ∀ j, m'.bucket j = m.bucket j
  room : n ≤ (m'.idx i).capacity
  count_eq : m'.elementCount = m.elementCount
  derived_eq : m'.derived = m.derived

/-- The state in which `entries_moved` runs: the entries are copied, the index is still the old one,
    and old and new slots do not overlap. -/
structure Moving (m m₁ m' : Multimap T D) (i : ℕ) : Prop where
  index_eq : m₁.index = m.index
  derived_eq : m₁.derived = m.derived
  bucket_eq : ∀ j, m₁.bucket j = m.bucket j
  apart : (m.idx i).begin + (m.idx i).size ≤ (m'.idx i).begin ∨
    (m'.idx i).begin + (m.idx i).size ≤ (m.idx i).begin
  nonempty : (m.idx i).size ≠ 0

/-- Growing a bucket that has the block `(b, c)` afterwards, with the other blocks and the data
    rearranged accordingly. -/
theorem relocated_of {m m' : Multimap T D} {i n b c k : ℕ} (hv : Valid m) (hi : i < m.index.length)
    (hindex : m'.index = m.index.set i { m.idx i with begin := b, capacity := c })
    (hc : c = 2 ^ k) (hk : k ≤ log2MaxEntriesPerBucket) (hn : n ≤ c)
    (hcap : (m.idx i).capacity ≤ c) (htiles : Tiles m'.blocks m'.data.length)
    (hrange : m'.data.length < sizeTypeRange)
    (hlists : m'.freeBuckets.length = m.freeBuckets.length)
    (hfree : ∀ j, ∀ e ∈ m'.freeBuckets.getD j [], e.capacity = 2 ^ j)
    (hbi : slice m'.data b (m.idx i).size = m.bucket i)
    (hbj : ∀ j, j ≠ i → j < m.index.length → 0 < (m.idx j).size →
      slice m'.data (m.idx j).begin (m.idx j).size = m.bucket j)
    (hcount : m'.elementCount = m.elementCount) (hderived : m'.derived = m.derived) :
    Relocated m m' i n := by
  have hself : m'.idx i = { m.idx i with begin := b, capacity := c } := idx_of_set_self hi hindex
  have hmem : ∀ e ∈ m'.index, e = { m.idx i with begin := b, capacity := c } ∨ e ∈ m.index := by
    intro e he
    rw [hindex] at he
    exact (List.mem_or_eq_of_mem_set he).symm
  refine ⟨⟨htiles, hrange, ?_, hlists.trans hv.lists, hfree, ?_, ?_⟩, ?_, ?_, ?_, hcount, hderived⟩
  · intro e he
    rcases hmem e he with rfl | hold
    · exact fun _ => ⟨k, hk, hc⟩
    · exact hv.order e hold
  · intro e he
    rcases hmem e he with rfl | hold
    · exact (hv.size _ (idx_mem hi)).trans hcap
    · exact hv.size e hold
  · have hsum := sum_size_of_set hi hindex
    rw [hcount, hv.count]
    simp only at hsum
    omega
  · rw [hself]; exact hindex
  · intro j
    rcases eq_or_ne j i with rfl | hji
    · rw [Multimap.bucket, hself]; exact hbi
    · rw [Multimap.bucket, idx_of_set_ne hji.symm hindex]
      rcases Nat.lt_or_ge j m.index.length with hj | hj
      · rcases Nat.lt_or_ge 0 ((m.idx j).size) with hpos | hpos
        · exact hbj j hji hj hpos
        · have hz : (m.idx j).size = 0 := by omega
          rw [Multimap.bucket, hz, slice_zero, slice_zero]
      · have hz : (m.idx j).size = 0 := by rw [idx_of_le (by omega)]
        rw [Multimap.bucket, hz, slice_zero, slice_zero]
  · rw [hself]; exact hn

/-- The outcome of a growth: `m'`, or `m'` with what the derived class makes of the move. -/
def GrowsTo [Inhabited T] [EntriesMoved T D] (m : Multimap T D) (i n : ℕ) (m' : Multimap T D) :
    Prop :=
  (m.growBucket i n = .ok m' ∧ ((m.idx i).size = 0 ∨ (m'.idx i).begin = (m.idx i).begin)) ∨
    ∃ m₁, Moving m m₁ m' i ∧ m.growBucket i n =
      (EntriesMoved.entriesMoved m₁ i (m.idx i).begin (m'.idx i).begin (m.idx i).size).map
        fun d => { m' with derived := d }

/-- After copying the entries of bucket `i` to slots apart from every block, the copy shows them and
    every bucket still has its own at the old place. -/
theorem windows_after_copy {m : Multimap T D} {i e c : ℕ} {d : List T} (hv : Valid m)
    (hi : i < m.index.length) (hlen : m.data.length ≤ d.length)
    (hsame : ∀ b s, b + s ≤ m.data.length → slice d b s = slice m.data b s)
    (hend : e + c ≤ d.length) (hsc : (m.idx i).size ≤ c)
    (hap : ∀ j, j < m.index.length → 0 < (m.idx j).capacity →
      (m.idx j).begin + (m.idx j).capacity ≤ e ∨ e + c ≤ (m.idx j).begin) :
    let d' := overwrite d e (slice d (m.idx i).begin (m.idx i).size)
    d'.length = d.length ∧ slice d' e (m.idx i).size = m.bucket i ∧
      ∀ j, slice d' (m.idx j).begin (m.idx j).size = m.bucket j := by
  intro d'
  rcases Nat.eq_zero_or_pos (m.idx i).size with hz | hpos
  · have hd' : d' = d := by simp [d', hz, overwrite]
    refine ⟨by rw [hd'], by rw [hz, slice_zero, Multimap.bucket, hz, slice_zero], fun j => ?_⟩
    rcases Nat.eq_zero_or_pos (m.idx j).size with hzj | hposj
    · rw [hzj, slice_zero, Multimap.bucket, hzj, slice_zero]
    · rw [hd', hsame _ _ (hv.bucket_le (lt_of_size_pos hposj) hposj), Multimap.bucket]
  · have hle := hv.bucket_le hi hpos
    have hxs : (slice d (m.idx i).begin (m.idx i).size).length = (m.idx i).size :=
      length_slice (by omega)
    have hcopy : slice d (m.idx i).begin (m.idx i).size = m.bucket i := hsame _ _ hle
    refine ⟨length_overwrite (by omega), ?_, fun j => ?_⟩
    · have hself := slice_overwrite_self (d := d) (a := e)
        (l := slice d (m.idx i).begin (m.idx i).size) (by omega)
      rw [hxs] at hself
      exact hself.trans hcopy
    · rcases Nat.eq_zero_or_pos (m.idx j).size with hzj | hposj
      · rw [hzj, slice_zero, Multimap.bucket, hzj, slice_zero]
      · have hj := lt_of_size_pos hposj
        have hsj := hv.size _ (idx_mem hj)
        have hapj := hap j hj (by omega)
        rw [slice_overwrite_of_apart (by omega) (by omega), hsame _ _ (hv.bucket_le hj hposj),
          Multimap.bucket]

section Grow
variable [EntriesMoved T D] {m : Multimap T D} {i n : ℕ}

/-- Moving entries is copying them and, if there are any, asking the derived class. -/
theorem moveEntries_eq (m : Multimap T D) (i b b' s : ℕ) :
    m.moveEntries i b b' s =
      (if s = 0 then .ok m.derived else EntriesMoved.entriesMoved
        { m with data := overwrite m.data b' (slice m.data b s) } i b b' s).map
        fun d => { m with data := overwrite m.data b' (slice m.data b s), derived := d } := by
  rcases eq_or_ne s 0 with hs | hs
  · subst hs
    simp [Multimap.moveEntries, overwrite, Except.map, pure, Except.pure]
  · rw [Multimap.moveEntries, if_neg hs, if_neg hs]
    rfl

variable [Inhabited T]

theorem growsTo_of_map {m' : Multimap T D} (m₁ : Multimap T D)
    (heq : m.growBucket i n = (if (m.idx i).size = 0 then .ok m.derived else
      EntriesMoved.entriesMoved m₁ i (m.idx i).begin (m'.idx i).begin (m.idx i).size).map
        fun d => { m' with derived := d })
    (hd : m'.derived = m.derived) (hmoving : (m.idx i).size ≠ 0 → Moving m m₁ m' i) :
    GrowsTo m i n m' := by
  rcases eq_or_ne ((m.idx i).size) 0 with hs | hs
  · rw [if_pos hs] at heq
    exact Or.inl ⟨heq.trans (by rw [← hd]; rfl), Or.inl hs⟩
  · rw [if_neg hs] at heq
    exact Or.inr ⟨m₁, hmoving hs, heq⟩

/-- Growing by reusing a free block. -/
theorem grow_reuse (hv : Valid m) (hi : i < m.index.length) (hcap : (m.idx i).capacity < n)
    (hmax : n ≤ maxEntriesPerBucket) (hfree : m.freeBuckets.getD (Nat.clog 2 n) [] ≠ []) :
    ∃ m', Relocated m m' i n ∧ GrowsTo m i n m' := by
  set k := Nat.clog 2 n with hk
  have hk20 : k ≤ log2MaxEntriesPerBucket := clog_le_of_le_max hmax
  have hn : n ≤ 2 ^ k := le_nextPowerOfTwo n
  have hsize := hv.size _ (idx_mem hi)
  have horder := hv.order _ (idx_mem hi)
  obtain ⟨fb, fs, hget, hfb, hfslen, hfsfree, hperm⟩ := getFreeBucket_some hv hk20 hfree
  -- the free block is one of the tiles, apart from every bucket's block
  have htiles : Tiles (fb.span :: ((m.index.map IndexType.span) ++
      fs.flatten.map IndexType.span)) m.data.length := by
    refine hv.tiles.perm ?_
    rw [Multimap.blocks, List.map_append]
    exact List.perm_middle.symm.trans ((hperm.map IndexType.span).symm.append_left _)
  have hfbpos : 0 < fb.span.2 := by simp only [IndexType.span, hfb]; exact Nat.two_pow_pos k
  have hfble : fb.begin + 2 ^ k ≤ m.data.length := by
    have := htiles.le (List.mem_cons_self ..) hfbpos
    simpa [IndexType.span, hfb] using this
  have hfbapart : ∀ j, j < m.index.length → 0 < (m.idx j).capacity →
      (m.idx j).begin + (m.idx j).capacity ≤ fb.begin ∨ fb.begin + 2 ^ k ≤ (m.idx j).begin := by
    intro j hj hpos
    have hmem := List.mem_append_left (fs.flatten.map IndexType.span)
      (List.mem_map_of_mem (f := IndexType.span) (idx_mem hj))
    have hap := ((List.pairwise_cons.mp htiles.pairwise).1 _ hmem).le_or_le hfbpos hpos
    simp only [IndexType.span, hfb] at hap
    omega
  obtain ⟨hlen, hbi, hbj⟩ := windows_after_copy (d := m.data) (c := 2 ^ k) hv hi le_rfl
    (fun _ _ _ => rfl) hfble (by omega) hfbapart
  set d' := overwrite m.data fb.begin (slice m.data (m.idx i).begin (m.idx i).size) with hd'
  set m' : Multimap T D := { m with
    index := m.index.set i { m.idx i with begin := fb.begin, capacity := fb.capacity }
    data := d', freeBuckets := freed fs (m.idx i) } with hm'
  have hindex : m'.index =
    m.index.set i { m.idx i with begin := fb.begin, capacity := fb.capacity } := rfl
  have hself := idx_of_set_self hi hindex
  have hlength : m'.data.length = m.data.length := hlen
  have hpow : nextPowerOfTwo n = 2 ^ k := rfl
  refine ⟨m', relocated_of hv hi hindex hfb hk20 (by omega) (by omega) ?_ ?_ (by simp [hm', hfslen])
    (freed_capacity horder hfsfree) hbi (fun j _ _ _ => hbj j) rfl rfl, ?_⟩
  · rw [hlength]
    have hset := blocks_perm_of_set hi hindex
    have hmid : Tiles ((m.idx i).span :: ((fb.span :: (m.index.eraseIdx i).map IndexType.span) ++
        fs.flatten.map IndexType.span)) m.data.length := by
      refine htiles.perm ((List.Perm.swap ..).trans (List.Perm.cons _ ?_))
      rw [idx_eq_getElem hi]
      exact ((List.getElem_cons_eraseIdx_perm hi).map IndexType.span).append_right _
    exact (Tiles.freed horder (hfslen.trans hv.lists) hmid).perm hset
  · rw [hlength]
    exact hv.range
  · set m₁ : Multimap T D := { m with freeBuckets := fs, data := d' } with hm₁
    refine growsTo_of_map m₁ ?_ rfl fun hs => ⟨rfl, rfl, hbj, ?_, hs⟩
    · rw [Multimap.growBucket, hpow, getOrder_pow hk20]
      simp only [bind, Except.bind, if_neg (Nat.not_lt.mpr hk20), hget]
      by_cases hc : (m.idx i).capacity ≠ 0
      · rw [if_pos hc, moveEntries_eq, hself]
        change Except.bind (Except.map _ (if _ then _ else EntriesMoved.entriesMoved m₁ ..)) _ = _
        refine map_bind_ok fun d => ?_
        rw [releaseBucket_eq horder]
        rfl
      · have hs : (m.idx i).size = 0 := by omega
        rw [if_neg hc, if_pos hs]
        simp only [pure, Except.pure, Multimap.setIdx, Except.map, hm', freed, if_neg hc, hd', hs,
          slice_zero, overwrite_nil]
    · rw [hself]
      have := hfbapart i hi (by omega)
      simp only
      omega

/-- The last block grows at the end of `data_`. -/
theorem growBucket_last (hmax : n ≤ maxEntriesPerBucket)
    (hfree : m.freeBuckets.getD (Nat.clog 2 n) [] = [])
    (hlast : (m.idx i).begin + (m.idx i).capacity = m.data.length)
    (hfit : m.data.length + (nextPowerOfTwo n - (m.idx i).capacity) < sizeTypeRange) :
    m.growBucket i n = .ok { m with
      index := m.index.set i { m.idx i with capacity := nextPowerOfTwo n }
      data := resize m.data (m.data.length + (nextPowerOfTwo n - (m.idx i).capacity)) default } := by
  have hk20 : Nat.clog 2 n ≤ log2MaxEntriesPerBucket := clog_le_of_le_max hmax
  have hmod := Nat.mod_eq_of_lt hfit
  rw [nextPowerOfTwo] at hmod
  rw [Multimap.growBucket, nextPowerOfTwo, getOrder_pow hk20]
  simp only [bind, Except.bind, if_neg (Nat.not_lt.mpr hk20), getFreeBucket_none hfree,
    if_pos hlast, Multimap.resizeData, toSizeType, hmod]
  rfl

/-- Growing the last block in place. -/
theorem grow_last (hv : Valid m) (hi : i < m.index.length) (hcap : (m.idx i).capacity < n)
    (hmax : n ≤ maxEntriesPerBucket) (hfree : m.freeBuckets.getD (Nat.clog 2 n) [] = [])
    (hlast : (m.idx i).begin + (m.idx i).capacity = m.data.length)
    (hfit : m.data.length + (nextPowerOfTwo n - (m.idx i).capacity) < sizeTypeRange) :
    ∃ m', Relocated m m' i n ∧ GrowsTo m i n m' := by
  set k := Nat.clog 2 n with hk
  have hnew : nextPowerOfTwo n = 2 ^ k := rfl
  have hk20 : k ≤ log2MaxEntriesPerBucket := clog_le_of_le_max hmax
  have hn : n ≤ 2 ^ k := le_nextPowerOfTwo n
  rw [hnew] at hfit
  set n' := m.data.length + (2 ^ k - (m.idx i).capacity) with hn'
  have hmod : toSizeType n' = n' := Nat.mod_eq_of_lt hfit
  set m' : Multimap T D := { m with
    index := m.index.set i { m.idx i with capacity := 2 ^ k }
    data := resize m.data n' default } with hm'
  have hindex : m'.index = m.index.set i { m.idx i with capacity := 2 ^ k } := rfl
  have hself := idx_of_set_self hi hindex
  have hlen : m'.data.length = n' := length_resize ..
  have hsame : ∀ j, slice m'.data (m.idx j).begin (m.idx j).size = m.bucket j := by
    intro j
    rcases Nat.eq_zero_or_pos (m.idx j).size with hzj | hposj
    · rw [hzj, slice_zero, Multimap.bucket, hzj, slice_zero]
    · exact slice_resize _ (hv.bucket_le (lt_of_size_pos hposj) hposj) (by omega)
  refine ⟨m', relocated_of hv hi hindex rfl hk20 hn (by omega) ?_ (hlen ▸ hfit) rfl hv.free
    (hsame i) (fun j _ _ _ => hsame j) rfl rfl, Or.inl ⟨?_, Or.inr (by rw [hself])⟩⟩
  · have htiles := (hv.tiles.perm (blocks_perm hi).symm).extend hlast (2 ^ k - (m.idx i).capacity)
    have hsum : (m.idx i).capacity + (2 ^ k - (m.idx i).capacity) = 2 ^ k := by omega
    rw [hsum] at htiles
    rw [hlen]
    exact htiles.perm (blocks_perm_of_set hi hindex)
  · exact growBucket_last hmax hfree hlast hfit

/-- Growing by appending a block. -/
theorem grow_append (hv : Valid m) (hi : i < m.index.length) (hcap : (m.idx i).capacity < n)
    (hmax : n ≤ maxEntriesPerBucket) (hfree : m.freeBuckets.getD (Nat.clog 2 n) [] = [])
    (hlast : (m.idx i).begin + (m.idx i).capacity ≠ m.data.length)
    (hfit : m.data.length + nextPowerOfTwo n < sizeTypeRange) :
    ∃ m', Relocated m m' i n ∧ GrowsTo m i n m' := by
  set k := Nat.clog 2 n with hk
  have hnew : nextPowerOfTwo n = 2 ^ k := rfl
  have hk20 : k ≤ log2MaxEntriesPerBucket := clog_le_of_le_max hmax
  have hn : n ≤ 2 ^ k := le_nextPowerOfTwo n
  have hsize := hv.size _ (idx_mem hi)
  have horder := hv.order _ (idx_mem hi)
  rw [hnew] at hfit
  set n' := m.data.length + 2 ^ k with hn'
  have hmod : toSizeType n' = n' := Nat.mod_eq_of_lt hfit
  set d := resize m.data n' default with hd
  have hdlen : d.length = n' := length_resize ..
  obtain ⟨hlen, hbi, hbj⟩ := windows_after_copy (d := d) (e := m.data.length) (c := 2 ^ k) hv hi
    (by omega) (fun b s hbs => slice_resize _ hbs (by omega)) (by omega) (by omega)
    (fun j hj hpos => Or.inl (hv.block_le hj hpos))
  set d' := overwrite d m.data.length (slice d (m.idx i).begin (m.idx i).size) with hd'
  set m' : Multimap T D := { m with
    index := m.index.set i { m.idx i with begin := m.data.length, capacity := 2 ^ k }
    data := d', freeBuckets := freed m.freeBuckets (m.idx i) } with hm'
  have hindex : m'.index =
    m.index.set i { m.idx i with begin := m.data.length, capacity := 2 ^ k } := rfl
  have hself := idx_of_set_self hi hindex
  have hlen' : m'.data.length = n' := hlen.trans hdlen
  refine ⟨m', relocated_of hv hi hindex rfl hk20 hn (by omega) ?_ (hlen' ▸ hfit) (by simp [hm'])
    (freed_capacity horder hv.free) hbi (fun j _ _ _ => hbj j) rfl rfl, ?_⟩
  · have htiles := (hv.tiles.perm (blocks_perm hi).symm).append (2 ^ k)
    rw [hlen']
    exact Tiles.perm (Tiles.freed
      (l := (m.data.length, 2 ^ k) :: (m.index.eraseIdx i).map IndexType.span) horder hv.lists
      (htiles.perm (List.Perm.swap ..))) (blocks_perm_of_set hi hindex)
  · set m₁ : Multimap T D := { m with data := d' } with hm₁
    refine growsTo_of_map m₁ ?_ rfl fun hs => ⟨rfl, rfl, hbj, ?_, hs⟩
    · rw [Multimap.growBucket, hnew, getOrder_pow hk20]
      simp only [bind, Except.bind, if_neg (Nat.not_lt.mpr hk20), getFreeBucket_none hfree,
        if_neg hlast, Multimap.resizeData, ← hn', hmod, ← hd]
      rw [moveEntries_eq, hself]
      change Except.bind (Except.map _ (if _ then _ else EntriesMoved.entriesMoved m₁ ..)) _ = _
      refine map_bind_ok fun d => ?_
      rw [releaseBucket_eq horder]
      rfl
    · rw [hself]
      have := hv.block_le hi (by omega)
      simp only
      omega

/-- What growing a bucket can do: reuse a free block, extend the last block, or append a block. The
    derived class is asked exactly when entries have changed their slots. -/
theorem growBucket_spec (hv : Valid m) (hi : i < m.index.length) (hcap : (m.idx i).capacity < n)
    (hmax : n ≤ maxEntriesPerBucket) (hfit : m.slotsNeeded i n < sizeTypeRange) :
    ∃ m', Relocated m m' i n ∧ GrowsTo m i n m' := by
  simp only [Multimap.slotsNeeded, if_neg (Nat.not_le.mpr hcap)] at hfit
  rcases eq_or_ne (m.freeBuckets.getD (Nat.clog 2 n) []) ([]) with hfree | hfree
  · rw [if_neg (by simpa using hfree)] at hfit
    rcases eq_or_ne ((m.idx i).begin + (m.idx i).capacity) m.data.length with hlast | hlast
    · rw [if_pos hlast] at hfit; exact grow_last hv hi hcap hmax hfree hlast hfit
    · rw [if_neg hlast] at hfit; exact grow_append hv hi hcap hmax hfree hlast hfit
  · exact grow_reuse hv hi hcap hmax hfree

end Grow

end Motis.DynamicFwsMultimap
