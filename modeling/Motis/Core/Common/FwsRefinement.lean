import Motis.Core.Common.FwsStorage

/-! `dynamic_fws_multimap` refines a list of lists.

    Abstractly the container is a list of buckets and a call rewrites one of them. Every call of the
    code is a growth (`Relocated`: no bucket changes its entries) followed by a write into the block
    of its own bucket (`updated_of_write`: the blocks are apart, so no other bucket changes), and
    both keep the storage invariant. The run theorem follows by induction on the calls. -/

namespace Motis.DynamicFwsMultimap
open Slots Tiling

variable {T D : Type}

/-- The abstract container: one list per bucket. -/
abbrev Buckets (T : Type) := List (List T)

/-- What a call does to the entries of its bucket. -/
def Op.onList [Inhabited T] : Op T → List T → List T
  | .create _, l => l
  | .pushBack _ v, l => l ++ [v]
  | .emplaceBack _ v, l => l ++ [v]
  | .insert _ pos v, l => l.insertIdx pos v
  | .reserve _ _, l => l
  | .resize _ n v, l => Slots.resize l n v
  | .popBack _, l => l.dropLast
  | .clear _, _ => []
  | .erase _ pos, l => l.eraseIdx pos
  | .eraseRange _ first last, l => l.take first ++ l.drop last

/-- One call on the abstract container: create the missing buckets, rewrite one. -/
def absStep [Inhabited T] (bs : Buckets T) (op : Op T) : Buckets T :=
  (bs ++ List.replicate (op.bucket + 1 - bs.length) []).modify op.bucket op.onList

def absRun [Inhabited T] (bs : Buckets T) (ops : List (Op T)) : Buckets T := ops.foldl absStep bs

/-- The iterators of a call are valid for a bucket of `n` entries. -/
def Op.ValidAt (n : ℕ) : Op T → Prop
  | .insert _ pos _ => pos ≤ n
  | .erase _ pos => pos < n
  | .eraseRange _ first last => first ≤ last ∧ last ≤ n
  | _ => True

/-- The number of entries a call makes room for in a bucket of `n` entries. -/
def Op.room (n : ℕ) : Op T → ℕ
  | .pushBack _ _ | .emplaceBack _ _ | .insert _ _ _ => n + 1
  | .reserve _ k | .resize _ k _ => k
  | _ => 0

/-- The call leaves its bucket, of `n` entries before, with at most `MAX_ENTRIES_PER_BUCKET`. -/
def Op.WithinMax (n : ℕ) : Op T → Prop
  | .pushBack _ _ | .emplaceBack _ _ | .insert _ _ _ => n + 1 ≤ maxEntriesPerBucket
  | .resize _ k _ => k ≤ maxEntriesPerBucket
  | _ => True

/-- The entries of all buckets. -/
def contents (m : Multimap T D) : Buckets T := (List.range m.index.length).map m.bucket

/-- No sum of the call leaves the range of `SizeType`: the bucket number is not its last value, and
    `data_` needs no more slots than it can count. -/
def Op.Fits (m : Multimap T D) (op : Op T) : Prop :=
  op.bucket + 1 < sizeTypeRange ∧
    let m := m.operatorIndex op.bucket
    let n := op.room (m.idx op.bucket).size
    n ≤ maxEntriesPerBucket → m.slotsNeeded op.bucket n < sizeTypeRange

@[simp] theorem length_contents (m : Multimap T D) : (contents m).length = m.index.length := by
  simp [contents]

theorem getElem?_contents (m : Multimap T D) {j : ℕ} (hj : j < m.index.length) :
    (contents m)[j]? = some (m.bucket j) := by
  simp [contents, hj]

theorem length_bucket {m : Multimap T D} (hv : Valid m) (i : ℕ) :
    (m.bucket i).length = (m.idx i).size := by
  rcases Nat.eq_zero_or_pos (m.idx i).size with hz | hpos
  · rw [Multimap.bucket, hz, slice_zero]; rfl
  · exact length_slice (hv.bucket_le (lt_of_size_pos hpos) hpos)

/-- `element_count()` is the number of entries in all buckets. -/
theorem count_eq_contents {m : Multimap T D} (hv : Valid m) :
    m.elementCount = ((contents m).map List.length).sum := by
  rw [hv.count, contents, List.map_map]
  congr 1
  apply List.ext_getElem?
  intro j
  rcases Nat.lt_or_ge j m.index.length with hj | hj
  · simp [hj, length_bucket hv, idx_eq_getElem hj]
  · simp [hj]

theorem Valid.size_le_count {m : Multimap T D} (hv : Valid m) {i : ℕ} (hi : i < m.index.length) :
    (m.idx i).size ≤ m.elementCount := by
  have hsum := ((List.getElem_cons_eraseIdx_perm hi).map (·.size)).sum_nat
  simp only [List.map_cons, List.sum_cons] at hsum
  rw [hv.count, ← hsum, idx_eq_getElem hi]
  omega

/-! ### `operator[]` -/

theorem operatorIndex_eq (m : Multimap T D) {i : ℕ} (hi : i + 1 < sizeTypeRange) :
    m.operatorIndex i =
      { m with index := m.index ++ List.replicate (i + 1 - m.index.length) {} } := by
  rw [Multimap.operatorIndex, toSizeType, Nat.mod_eq_of_lt hi]
  split
  · next h => rw [resize, List.take_of_length_le (by omega)]
  · next h =>
    have hzero : i + 1 - m.index.length = 0 := by omega
    simp [hzero]

theorem operatorIndex_of_lt {m : Multimap T D} {i : ℕ} (hi : i < m.index.length) :
    m.operatorIndex i = m := by
  rw [Multimap.operatorIndex, if_neg (by omega)]

@[simp] theorem idx_operatorIndex (m : Multimap T D) {i : ℕ} (hi : i + 1 < sizeTypeRange) (j : ℕ) :
    (m.operatorIndex i).idx j = m.idx j := by
  rw [operatorIndex_eq m hi]
  simp only [Multimap.idx, List.getD_eq_getElem?_getD, List.getElem?_append]
  split
  · rfl
  · next h =>
    rw [List.getElem?_eq_none (Nat.not_lt.mp h), List.getElem?_replicate]
    split <;> rfl

@[simp] theorem bucket_operatorIndex (m : Multimap T D) {i : ℕ} (hi : i + 1 < sizeTypeRange)
    (j : ℕ) : (m.operatorIndex i).bucket j = m.bucket j := by
  rw [Multimap.bucket, idx_operatorIndex m hi, operatorIndex_eq m hi, Multimap.bucket]

/-- Creating buckets changes no block: the new entries own no slot. -/
theorem operatorIndex_spec {m : Multimap T D} (hv : Valid m) {i : ℕ} (hi : i + 1 < sizeTypeRange) :
    Valid (m.operatorIndex i) ∧ i < (m.operatorIndex i).index.length ∧
      contents (m.operatorIndex i) =
        contents m ++ List.replicate (i + 1 - (contents m).length) [] := by
  have hbucket := bucket_operatorIndex m hi
  rw [operatorIndex_eq m hi] at hbucket ⊢
  set k := i + 1 - m.index.length with hk
  have hmem : ∀ e ∈ m.index ++ List.replicate k ({} : IndexType), e ∈ m.index ∨ e = {} := by
    intro e he
    rcases List.mem_append.mp he with h | h
    · exact Or.inl h
    · exact Or.inr (List.eq_of_mem_replicate h)
  refine ⟨⟨?_, hv.range, ?_, hv.lists, hv.free, ?_, ?_⟩, by simp; omega, ?_⟩
  · have htiles := hv.tiles
    rw [Multimap.blocks, List.map_append] at htiles ⊢
    rw [List.map_append]
    refine htiles.insert_empty fun b hb => ?_
    obtain ⟨e, he, rfl⟩ := List.mem_map.mp hb
    rw [List.eq_of_mem_replicate he]
    rfl
  · intro e he hne
    rcases hmem e he with h | rfl
    · exact hv.order e h hne
    · exact absurd rfl hne
  · intro e he
    rcases hmem e he with h | rfl
    · exact hv.size e h
    · exact le_rfl
  · simpa using hv.count
  · apply List.ext_getElem?
    intro j
    rw [length_contents, ← hk, List.getElem?_append, length_contents]
    by_cases hj : j < m.index.length
    · rw [if_pos hj, getElem?_contents _ (by simp; omega), getElem?_contents _ hj, hbucket]
    · rw [if_neg hj, List.getElem?_replicate]
      by_cases hjk : j - m.index.length < k
      · rw [if_pos hjk, getElem?_contents _ (by simp; omega), hbucket, Multimap.bucket,
          idx_of_le (Nat.not_lt.mp hj), slice_zero]
      · rw [if_neg hjk, List.getElem?_eq_none (by simp; omega)]

/-! ### Writing into a block -/

/-- Bucket `i` now holds `f` of its entries, every other bucket what it held. -/
structure Updated (m m' : Multimap T D) (i : ℕ) (f : List T → List T) : Prop where
  valid : Valid m'
  length_eq : m'.index.length = m.index.length
  self : m'.bucket i = f (m.bucket i)
  other : ∀ j, j ≠ i → m'.bucket j = m.bucket j

theorem Updated.contents_eq {m m' : Multimap T D} {i : ℕ} {f : List T → List T}
    (h : Updated m m' i f) : contents m' = (contents m).modify i f := by
  apply List.ext_getElem?
  intro j
  rw [List.getElem?_modify]
  rcases Nat.lt_or_ge j m.index.length with hj | hj
  · rw [getElem?_contents _ (h.length_eq ▸ hj), getElem?_contents _ hj]
    rcases eq_or_ne i j with hij | hij
    · subst hij; simp [h.self]
    · simp [hij, h.other j (Ne.symm hij)]
  · rw [List.getElem?_eq_none (by simp [h.length_eq]; omega),
      List.getElem?_eq_none (by simp; omega)]
    rfl

/-- A write inside the block of bucket `i` that gives it `s` entries. -/
theorem updated_of_write {m m' : Multimap T D} {i s : ℕ} {f : List T → List T} (hv : Valid m)
    (hi : i < m.index.length) (hindex : m'.index = m.index.set i { m.idx i with size := s })
    (hs : s ≤ (m.idx i).capacity) (hlen : m'.data.length = m.data.length)
    (hfree : m'.freeBuckets = m.freeBuckets)
    (hcount : m'.elementCount + (m.idx i).size = m.elementCount + s)
    (hframe : ∀ c t, ((m.idx i).capacity = 0 ∨ c + t ≤ (m.idx i).begin ∨
      (m.idx i).begin + (m.idx i).capacity ≤ c) → slice m'.data c t = slice m.data c t)
    (hself : slice m'.data (m.idx i).begin s = f (m.bucket i)) : Updated m m' i f := by
  have hmem : ∀ e ∈ m'.index, e = { m.idx i with size := s } ∨ e ∈ m.index := by
    intro e he
    rw [hindex] at he
    exact (List.mem_or_eq_of_mem_set he).symm
  refine ⟨⟨?_, ?_, ?_, ?_, ?_, ?_, ?_⟩, by rw [hindex, List.length_set], ?_, ?_⟩
  · rw [hlen]
    have hset := blocks_perm_of_set hi hindex
    rw [hfree] at hset
    exact hv.tiles.perm (hset.trans (blocks_perm hi).symm)
  · rw [hlen]; exact hv.range
  · intro e he
    rcases hmem e he with rfl | hold
    · exact (hv.order (m.idx i) (idx_mem hi) : HasOrder (m.idx i))
    · exact hv.order e hold
  · rw [hfree]; exact hv.lists
  · rw [hfree]; exact hv.free
  · intro e he
    rcases hmem e he with rfl | hold
    · exact hs
    · exact hv.size e hold
  · have hsum := sum_size_of_set hi hindex
    have := hv.count
    simp only at hsum
    omega
  · rw [Multimap.bucket, idx_of_set_self hi hindex]; exact hself
  · intro j hji
    rw [Multimap.bucket, idx_of_set_ne hji.symm hindex]
    rcases Nat.eq_zero_or_pos (m.idx j).size with hzj | hposj
    · rw [hzj, slice_zero, Multimap.bucket, hzj, slice_zero]
    · have hj := lt_of_size_pos hposj
      have hsj := hv.size _ (idx_mem hj)
      rcases Nat.eq_zero_or_pos (m.idx i).capacity with hzi | hposi
      · exact hframe _ _ (by omega)
      · have hposj : 0 < (m.idx j).capacity := by omega
        have hap := (hv.apart hi hj hji.symm).le_or_le hposi hposj
        simp only [IndexType.span] at hap
        exact hframe _ _ (by omega)

/-! ### The calls -/

section Calls
variable {m : Multimap T D} {i : ℕ}

theorem Relocated.idx_size {m' : Multimap T D} {n : ℕ} (h : Relocated m m' i n)
    (hi : i < m.index.length) : (m'.idx i).size = (m.idx i).size := by
  rw [idx_of_set_self hi h.index_eq]

theorem Relocated.length_eq {m' : Multimap T D} {n : ℕ} (h : Relocated m m' i n) :
    m'.index.length = m.index.length := by
  rw [h.index_eq, List.length_set]

/-- A write after a growth. -/
theorem Updated.of_relocated {m₁ m' : Multimap T D} {n : ℕ} {f : List T → List T}
    (hr : Relocated m m₁ i n) (hu : Updated m₁ m' i f) : Updated m m' i f where
  valid := hu.valid
  length_eq := hu.length_eq.trans hr.length_eq
  self := by rw [hu.self, hr.bucket_eq]
  other := fun j hj => (hu.other j hj).trans (hr.bucket_eq j)

/-- A bucket that has room already. -/
theorem relocated_refl (hv : Valid m) (hi : i < m.index.length) {n : ℕ}
    (hn : n ≤ (m.idx i).capacity) : Relocated m m i n := by
  refine ⟨hv, ?_, fun _ => rfl, hn, rfl, rfl⟩
  rw [idx_eq_getElem hi]
  exact (List.set_getElem_self hi).symm

/-- The write of `push_back`. -/
theorem updated_push (hv : Valid m) (hi : i < m.index.length)
    (hroom : (m.idx i).size + 1 ≤ (m.idx i).capacity) (v : T) :
    Updated m { m with
      index := m.index.set i { m.idx i with size := (m.idx i).size + 1 }
      data := overwrite m.data ((m.idx i).begin + (m.idx i).size) [v]
      elementCount := m.elementCount + 1 } i (· ++ [v]) := by
  have hle := hv.block_le hi (by omega)
  refine updated_of_write hv hi rfl hroom ?_ rfl (by simp only; omega) ?_ ?_
  · exact length_overwrite (by simp; omega)
  · exact fun c t hct => slice_overwrite_of_apart (by simp; omega) (by simp; omega)
  · exact slice_append (l := [v]) (by simp; omega)

/-- The writes of `insert`. -/
theorem updated_insert (hv : Valid m) (hi : i < m.index.length)
    (hroom : (m.idx i).size + 1 ≤ (m.idx i).capacity) {pos : ℕ} (hpos : pos ≤ (m.idx i).size)
    (v : T) :
    Updated m { m with
      index := m.index.set i { m.idx i with size := (m.idx i).size + 1 }
      data := overwrite (overwrite m.data ((m.idx i).begin + pos + 1)
        (slice m.data ((m.idx i).begin + pos) ((m.idx i).size - pos))) ((m.idx i).begin + pos) [v]
      elementCount := m.elementCount + 1 } i (·.insertIdx pos v) := by
  have hle := hv.block_le hi (by omega)
  have htail : (slice m.data ((m.idx i).begin + pos) ((m.idx i).size - pos)).length =
    (m.idx i).size - pos := length_slice (by omega)
  have hlen := length_overwrite (d := m.data) (a := (m.idx i).begin + pos + 1)
    (l := slice m.data ((m.idx i).begin + pos) ((m.idx i).size - pos)) (by omega)
  refine updated_of_write hv hi rfl hroom ?_ rfl (by simp only; omega) ?_ ?_
  · exact (length_overwrite (by simp; omega)).trans hlen
  · intro c t hct
    rw [slice_overwrite_of_apart (by simp; omega) (by simp; omega),
      slice_overwrite_of_apart (by omega) (by omega)]
  · exact slice_insert v hpos (by omega)

/-- The writes of `resize` to a larger size. -/
theorem updated_grow (hv : Valid m) (hi : i < m.index.length) {n : ℕ} (hn : (m.idx i).size ≤ n)
    (hroom : n ≤ (m.idx i).capacity) (v : T) :
    Updated m { m with
      index := m.index.set i { m.idx i with size := n }
      data := overwrite m.data ((m.idx i).begin + (m.idx i).size)
        (List.replicate (n - (m.idx i).size) v)
      elementCount := m.elementCount + (n - (m.idx i).size) } i (Slots.resize · n v) := by
  have hlenb := length_bucket hv i
  rcases Nat.eq_zero_or_pos n with rfl | hpos
  · refine updated_of_write hv hi rfl hroom (by simp) rfl (by simp only; omega)
      (fun c t _ => by simp) ?_
    simp [Slots.resize]
  · have hle := hv.block_le hi (by omega)
    refine updated_of_write hv hi rfl hroom ?_ rfl (by simp only; omega) ?_ ?_
    · exact length_overwrite (by simp; omega)
    · exact fun c t hct => slice_overwrite_of_apart (by simp; omega) (by simp; omega)
    · have happ := slice_append (d := m.data) (b := (m.idx i).begin) (s := (m.idx i).size)
        (l := List.replicate (n - (m.idx i).size) v) (by simp; omega)
      have hsum : (m.idx i).size + (n - (m.idx i).size) = n := by omega
      rw [List.length_replicate, hsum] at happ
      simp only
      rw [happ, Slots.resize, hlenb, List.take_of_length_le (by omega), Multimap.bucket]

/-- `resize` to a smaller size, `pop_back` and `clear` only lower the size. -/
theorem updated_cut (hv : Valid m) (hi : i < m.index.length) {n : ℕ} (hn : n ≤ (m.idx i).size) :
    Updated m { m with
      index := m.index.set i { m.idx i with size := n }
      elementCount := m.elementCount - ((m.idx i).size - n) } i (·.take n) := by
  have hsize := hv.size _ (idx_mem hi)
  have hcount := hv.size_le_count hi
  refine updated_of_write hv hi rfl (by omega) rfl rfl (by simp only; omega) (fun _ _ _ => rfl) ?_
  exact (take_slice m.data _ hn).symm

/-- The writes of `erase(pos)`. -/
theorem updated_erase (hv : Valid m) (hi : i < m.index.length) {pos : ℕ}
    (hpos : pos < (m.idx i).size) : Updated m (m.erase i pos).1 i (·.eraseIdx pos) := by
  have hsize := hv.size _ (idx_mem hi)
  have hle := hv.block_le hi (by omega)
  have hcount := hv.size_le_count hi
  refine updated_of_write hv hi rfl (by omega) ?_ rfl ?_ ?_ ?_
  · exact length_swapLoop ..
  · simp only [Multimap.erase]; omega
  · exact fun c t hct => slice_swapLoop_of_apart (by omega) (by omega)
  · exact slice_swapLoop hpos (by omega)

/-- The writes of `erase(first, last)`. -/
theorem updated_eraseRange (hv : Valid m) (hi : i < m.index.length) {first last : ℕ}
    (hfl : first ≤ last) (hl : last ≤ (m.idx i).size) :
    Updated m (m.eraseRange i first last).1 i (fun l => l.take first ++ l.drop last) := by
  have hsize := hv.size _ (idx_mem hi)
  rcases eq_or_ne first last with hne | hne
  · subst hne
    rw [Multimap.eraseRange, if_neg (by simp)]
    exact ⟨hv, rfl, by simp, fun _ _ => rfl⟩
  · have hle := hv.block_le hi (by omega)
    have hcount := hv.size_le_count hi
    have htail : (slice m.data ((m.idx i).begin + last) ((m.idx i).size - last)).length =
      (m.idx i).size - last := length_slice (by omega)
    have hnew : (m.idx i).size - ((m.idx i).size - (first + ((m.idx i).size - last))) =
      (m.idx i).size - (last - first) := by omega
    rw [Multimap.eraseRange, if_pos hne]
    refine updated_of_write (s := (m.idx i).size - (last - first)) hv hi ?_ (by omega) ?_ rfl
      ?_ ?_ ?_
    · simp only [hnew]
    · exact length_overwrite (by omega)
    · simp only; omega
    · exact fun c t hct => slice_overwrite_of_apart (by omega) (by omega)
    · exact slice_erase hfl hl (by omega)

/-- `reserve` when the bucket has room. -/
theorem reserve_of_room [Inhabited T] [EntriesMoved T D] {n : ℕ} (hn : n ≤ (m.idx i).capacity) :
    m.reserve i n = .ok m := by
  rw [Multimap.reserve, if_neg (by omega)]; rfl

/-- `push_back` is `reserve` for one more entry and a write: a bucket grows when it is full. -/
theorem pushBackEntry_eq [Inhabited T] [EntriesMoved T D] (hv : Valid m) (hi : i < m.index.length)
    (v : T) :
    m.pushBackEntry i v = (m.reserve i ((m.idx i).size + 1)) >>= fun m' => .ok ({ m' with
      index := m'.index.set i { m'.idx i with size := (m'.idx i).size + 1 }
      data := overwrite m'.data ((m'.idx i).begin + (m'.idx i).size) [v]
      elementCount := m'.elementCount + 1 }, (m'.idx i).begin + (m'.idx i).size) := by
  have hsize := hv.size _ (idx_mem hi)
  rw [Multimap.pushBackEntry, Multimap.insertNewEntry, Multimap.reserve]
  rcases eq_or_ne ((m.idx i).size) ((m.idx i).capacity) with hfull | hfull
  · rw [if_pos hfull, if_pos (by omega), hfull, bind_assoc]
    rfl
  · rw [if_neg hfull, if_neg (by omega)]
    rfl

/-- `emplace_back` constructs in place what `push_back` copies. -/
theorem emplaceBackEntry_eq [Inhabited T] [EntriesMoved T D] (m : Multimap T D) (i : ℕ) (v : T) :
    m.pushBackEntry i v = m.emplaceBackEntry i v := rfl

end Calls

/-! ### The plain container -/

section Plain
variable [Inhabited T] {m : Multimap T Unit} {i : ℕ}

theorem reserve_spec (hv : Valid m) (hi : i < m.index.length) {n : ℕ}
    (hmax : n ≤ maxEntriesPerBucket) (hfit : m.slotsNeeded i n < sizeTypeRange) :
    ∃ m', m.reserve i n = .ok m' ∧ Relocated m m' i n := by
  by_cases hn : n ≤ (m.idx i).capacity
  · exact ⟨m, reserve_of_room hn, relocated_refl hv hi hn⟩
  · obtain ⟨m', hr, hgrow⟩ := growBucket_spec hv hi (Nat.not_le.mp hn) hmax hfit
    rw [Multimap.reserve, if_pos (Nat.not_le.mp hn)]
    rcases hgrow with ⟨hok, -⟩ | ⟨m₁, -, hok⟩
    · exact ⟨m', hok, hr⟩
    · exact ⟨m', hok, hr⟩

theorem pushBack_spec (hv : Valid m) (hi : i < m.index.length) (v : T)
    (hmax : (m.idx i).size + 1 ≤ maxEntriesPerBucket)
    (hfit : m.slotsNeeded i ((m.idx i).size + 1) < sizeTypeRange) :
    ∃ r, m.pushBackEntry i v = .ok r ∧ Updated m r.1 i (· ++ [v]) := by
  obtain ⟨m₁, hres, hr⟩ := reserve_spec hv hi hmax hfit
  have hi₁ : i < m₁.index.length := by rw [hr.length_eq]; exact hi
  have hroom : (m₁.idx i).size + 1 ≤ (m₁.idx i).capacity := by rw [hr.idx_size hi]; exact hr.room
  rw [pushBackEntry_eq hv hi, hres]
  exact ⟨_, rfl, Updated.of_relocated hr (updated_push hr.valid hi₁ hroom v)⟩

theorem insert_spec (hv : Valid m) (hi : i < m.index.length) (v : T) {pos : ℕ}
    (hpos : pos ≤ (m.idx i).size) (hmax : (m.idx i).size + 1 ≤ maxEntriesPerBucket)
    (hfit : m.slotsNeeded i ((m.idx i).size + 1) < sizeTypeRange) :
    ∃ m', m.insert i pos v = .ok m' ∧ Updated m m' i (·.insertIdx pos v) := by
  obtain ⟨m₁, hres, hr⟩ := reserve_spec hv hi hmax hfit
  have hi₁ : i < m₁.index.length := by rw [hr.length_eq]; exact hi
  have hsize := hr.idx_size hi
  have hroom : (m₁.idx i).size + 1 ≤ (m₁.idx i).capacity := by rw [hsize]; exact hr.room
  rw [Multimap.insert, Multimap.prepareInsert, hres]
  exact ⟨_, rfl, Updated.of_relocated hr
    (updated_insert hr.valid hi₁ hroom (by rw [hsize]; exact hpos) v)⟩

theorem resize_spec (hv : Valid m) (hi : i < m.index.length) (v : T) {n : ℕ}
    (hmax : n ≤ maxEntriesPerBucket) (hfit : m.slotsNeeded i n < sizeTypeRange) :
    ∃ m', m.resizeBucket i n v = .ok m' ∧ Updated m m' i (Slots.resize · n v) := by
  obtain ⟨m₁, hres, hr⟩ := reserve_spec hv hi hmax hfit
  have hi₁ : i < m₁.index.length := by rw [hr.length_eq]; exact hi
  have hsize := hr.idx_size hi
  have hlen := length_bucket hr.valid i
  rw [Multimap.resizeBucket, hres, ← hsize]
  rcases Nat.lt_trichotomy n (m₁.idx i).size with hlt | heq | hgt
  · have hcut : ∀ l : List T, l.length = (m₁.idx i).size → l.take n = Slots.resize l n v := by
      intro l hl
      have hzero : n - l.length = 0 := by omega
      simp [Slots.resize, hzero]
    have hu := updated_cut hr.valid hi₁ (Nat.le_of_lt hlt)
    refine ⟨_, rfl, Updated.of_relocated hr ?_⟩
    simp only [if_pos hlt]
    exact ⟨hu.valid, hu.length_eq, hu.self.trans (hcut _ hlen), hu.other⟩
  · have hu := updated_grow hr.valid hi₁ (le_of_eq heq.symm) hr.room v
    refine ⟨_, rfl, Updated.of_relocated hr ?_⟩
    simp only [heq, Nat.lt_irrefl, if_false, gt_iff_lt]
    simpa [heq, Multimap.setIdx] using hu
  · have hu := updated_grow hr.valid hi₁ (Nat.le_of_lt hgt) hr.room v
    refine ⟨_, rfl, Updated.of_relocated hr ?_⟩
    simp only [if_neg (Nat.not_lt.mpr (Nat.le_of_lt hgt)), if_pos hgt]
    exact hu

theorem popBack_spec (hv : Valid m) (hi : i < m.index.length) :
    ∃ m', m.popBack i = .ok m' ∧ Updated m m' i List.dropLast := by
  have hsize := hv.size _ (idx_mem hi)
  have hlen := length_bucket hv i
  rw [Multimap.popBack]
  split
  · next hne =>
    have hroom := reserve_of_room (m := m) (i := i) (n := (m.idx i).size - 1) (by omega)
    have hu := updated_cut hv hi (n := (m.idx i).size - 1) (by omega)
    rw [Multimap.resizeBucket, hroom]
    have hlt : (m.idx i).size - 1 < (m.idx i).size := by omega
    refine ⟨_, rfl, ?_⟩
    simp only [if_pos hlt]
    refine ⟨hu.valid, hu.length_eq, hu.self.trans ?_, hu.other⟩
    rw [List.dropLast_eq_take, hlen]
  · next hz =>
    have hnil : m.bucket i = [] := List.eq_nil_of_length_eq_zero (by omega)
    exact ⟨m, rfl, hv, rfl, by rw [hnil]; rfl, fun _ _ => rfl⟩

omit [Inhabited T] in
theorem clear_spec (hv : Valid m) (hi : i < m.index.length) :
    Updated m (m.clear i) i fun _ => [] := by
  have hu := updated_cut hv hi (n := 0) (Nat.zero_le _)
  exact ⟨hu.valid, hu.length_eq, hu.self.trans List.take_zero, hu.other⟩

/-- Every call succeeds and does to its bucket what it does to the list. -/
theorem apply_spec (hv : Valid m) (op : Op T) (hi : op.bucket < m.index.length)
    (hvalid : op.ValidAt (m.idx op.bucket).size)
    (hmax : op.room (m.idx op.bucket).size ≤ maxEntriesPerBucket)
    (hfit : m.slotsNeeded op.bucket (op.room (m.idx op.bucket).size) < sizeTypeRange) :
    ∃ m', op.apply m = .ok m' ∧ Updated m m' op.bucket op.onList := by
  cases op with
  | create i => exact ⟨m, rfl, hv, rfl, rfl, fun _ _ => rfl⟩
  | pushBack i v =>
    obtain ⟨r, hok, hu⟩ := pushBack_spec (i := i) hv hi v hmax hfit
    exact ⟨r.1, by rw [Op.apply, hok]; rfl, hu⟩
  | emplaceBack i v =>
    obtain ⟨r, hok, hu⟩ := pushBack_spec (i := i) hv hi v hmax hfit
    exact ⟨r.1, by rw [Op.apply, ← emplaceBackEntry_eq, hok]; rfl, hu⟩
  | insert i pos v => exact insert_spec hv hi v hvalid hmax hfit
  | reserve i n =>
    obtain ⟨m', hok, hr⟩ := reserve_spec hv hi hmax hfit
    exact ⟨m', hok, hr.valid, hr.length_eq, hr.bucket_eq i, fun j _ => hr.bucket_eq j⟩
  | resize i n v => exact resize_spec hv hi v hmax hfit
  | popBack i => exact popBack_spec hv hi
  | clear i => exact ⟨_, rfl, clear_spec hv hi⟩
  | erase i pos => exact ⟨_, rfl, updated_erase hv hi hvalid⟩
  | eraseRange i first last => exact ⟨_, rfl, updated_eraseRange hv hi hvalid.1 hvalid.2⟩

omit [Inhabited T] in
/-- A growth beyond the limit throws. -/
theorem growBucket_error [Inhabited T] [EntriesMoved T D] {m : Multimap T D} {n : ℕ} (hn : maxEntriesPerBucket < n) :
    ∃ e, m.growBucket i n = .error e := by
  have hnone : (List.range (log2MaxEntriesPerBucket + 1)).find?
      (fun order => 2 ^ order == nextPowerOfTwo n) = none := by
    rw [List.find?_eq_none]
    intro k hk heq
    have hk : k ≤ log2MaxEntriesPerBucket := by have := List.mem_range.mp hk; omega
    have hle := le_nextPowerOfTwo n
    rw [← beq_iff_eq.mp heq] at hle
    have := Nat.pow_le_pow_right (n := 2) (by omega) hk
    simp only [maxEntriesPerBucket] at hn
    omega
  exact ⟨.orderNotFound (nextPowerOfTwo n), by rw [Multimap.growBucket, getOrder, hnone]; rfl⟩

omit [Inhabited T] in
theorem reserve_error [Inhabited T] [EntriesMoved T D] {m : Multimap T D} (hv : Valid m)
    (hi : i < m.index.length) {n : ℕ}
    (hn : maxEntriesPerBucket < n) : ∃ e, m.reserve i n = .error e := by
  have hcap : (m.idx i).capacity ≤ maxEntriesPerBucket := by
    rcases Nat.eq_zero_or_pos (m.idx i).capacity with hz | hpos
    · omega
    · obtain ⟨k, hk, heq⟩ := hv.order _ (idx_mem hi) (by omega)
      rw [heq]; exact Nat.pow_le_pow_right (by omega) hk
  rw [Multimap.reserve, if_pos (by omega)]
  exact growBucket_error hn

/-- A call that needs room beyond the limit throws. -/
theorem apply_error (hv : Valid m) (op : Op T) (hi : op.bucket < m.index.length)
    (hmax : maxEntriesPerBucket < op.room (m.idx op.bucket).size) :
    ∃ e, op.apply m = .error e := by
  obtain ⟨e, he⟩ := reserve_error hv hi hmax
  refine ⟨e, ?_⟩
  cases op with
  | pushBack i v =>
    have he : m.reserve i ((m.idx i).size + 1) = .error e := he
    rw [Op.apply, pushBackEntry_eq (i := i) hv hi, he]; rfl
  | emplaceBack i v =>
    have he : m.reserve i ((m.idx i).size + 1) = .error e := he
    rw [Op.apply, ← emplaceBackEntry_eq, pushBackEntry_eq (i := i) hv hi, he]; rfl
  | insert i pos v =>
    have he : m.reserve i ((m.idx i).size + 1) = .error e := he
    rw [Op.apply, Multimap.insert, Multimap.prepareInsert, he]; rfl
  | reserve i n => exact he
  | resize i n v =>
    have he : m.reserve i n = .error e := he
    rw [Op.apply, Multimap.resizeBucket, he]; rfl
  | create _ | popBack _ | clear _ | erase _ _ | eraseRange _ _ _ => simp [Op.room] at hmax

theorem absStep_eq_of_id (bs : Buckets T) {op : Op T} (hid : ∀ l, op.onList l = l) :
    absStep bs op = bs ++ List.replicate (op.bucket + 1 - bs.length) [] := by
  have hfun : op.onList = id := funext hid
  rw [absStep, hfun, List.modify_id]

omit [Inhabited T] in
/-- The entry count of bucket `i`, on the list of lists and in the index. -/
theorem size_operatorIndex (hv : Valid m) {i : ℕ} (hi : i + 1 < sizeTypeRange) :
    ((m.operatorIndex i).idx i).size = ((contents m).getD i []).length := by
  obtain ⟨hv₁, hlt, hcontents⟩ := operatorIndex_spec hv hi
  have hget : (contents m).getD i [] = (contents (m.operatorIndex i)).getD i [] := by
    rw [hcontents, List.getD_eq_getElem?_getD, List.getD_eq_getElem?_getD, List.getElem?_append]
    split
    · rfl
    · next h => rw [List.getElem?_eq_none (Nat.not_lt.mp h), List.getElem?_replicate]; split <;> rfl
  rw [hget, List.getD_eq_getElem?_getD, getElem?_contents _ hlt, Option.getD_some,
    length_bucket hv₁]

/-- One call keeps the storage invariant, and within the limit it is the call on the list of
    lists. -/
theorem exec_spec (hv : Valid m) (op : Op T)
    (hvalid : op.ValidAt ((contents m).getD op.bucket []).length) (hfit : op.Fits m) :
    Valid (exec m op) ∧ (op.WithinMax ((contents m).getD op.bucket []).length →
      contents (exec m op) = absStep (contents m) op) := by
  obtain ⟨hv₁, hi, hcontents⟩ := operatorIndex_spec hv hfit.1
  rw [← size_operatorIndex hv hfit.1] at hvalid ⊢
  by_cases hmax : op.room ((m.operatorIndex op.bucket).idx op.bucket).size ≤ maxEntriesPerBucket
  · obtain ⟨m', hok, hu⟩ := apply_spec hv₁ op hi hvalid hmax (hfit.2 hmax)
    have hexec : exec m op = m' := by rw [exec, step, hok]
    rw [hexec]
    exact ⟨hu.valid, fun _ => by rw [hu.contents_eq, hcontents, absStep]⟩
  · obtain ⟨e, he⟩ := apply_error hv₁ op hi (Nat.not_le.mp hmax)
    have hexec : exec m op = m.operatorIndex op.bucket := by rw [exec, step, he]
    rw [hexec]
    refine ⟨hv₁, fun hwithin => ?_⟩
    -- within the limit only `reserve` can ask for too much room
    cases op with
    | reserve i n => rw [hcontents, absStep_eq_of_id _ fun _ => rfl]
    | pushBack _ _ | emplaceBack _ _ | insert _ _ _ | resize _ _ _ => exact absurd hwithin hmax
    | create _ | popBack _ | clear _ | erase _ _ | eraseRange _ _ _ =>
      exact absurd (Nat.zero_le _) hmax

end Plain

end Motis.DynamicFwsMultimap
