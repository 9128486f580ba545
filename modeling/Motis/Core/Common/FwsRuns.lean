import Motis.Core.Common.FwsRefinement

/-! Whole runs of `dynamic_fws_multimap`.

    From the empty container, any sequence of calls keeps the storage invariant, and as long as no
    bucket outgrows the limit the buckets hold what the same calls give on a list of lists. Both
    need the run to stay within `SizeType`: `mm[2 ^ 32 - 1]` asks for `index + 1 = 0` buckets and
    drops all of them. -/

namespace Motis.DynamicFwsMultimap
open Slots Tiling

variable {T D : Type}

/-- The calls are made with valid iterators and leave no bucket with too many entries. -/
def Legal [Inhabited T] : Buckets T → List (Op T) → Prop
  | _, [] => True
  | bs, op :: ops => op.ValidAt (bs.getD op.bucket []).length ∧
      op.WithinMax (bs.getD op.bucket []).length ∧ Legal (absStep bs op) ops

/-- No call of the run leaves the range of `SizeType`. -/
def AllFit [Inhabited T] : Multimap T Unit → List (Op T) → Prop
  | _, [] => True
  | m, op :: ops => op.Fits m ∧ AllFit (exec m op) ops

theorem valid_empty : Valid (empty T) := by
  refine ⟨?_, Nat.two_pow_pos 32, by simp [empty], by simp [empty], ?_, by simp [empty], rfl⟩
  · intro x
    simp [Multimap.blocks, empty, List.flatten_replicate_nil]
  · intro k e he
    simp [empty, List.getElem?_replicate] at he
    split at he <;> simp at he

theorem execs_spec [Inhabited T] (ops : List (Op T)) (m : Multimap T Unit) (hv : Valid m)
    (hlegal : Legal (contents m) ops) (hfits : AllFit m ops) :
    Valid (execs m ops) ∧ contents (execs m ops) = absRun (contents m) ops := by
  induction ops generalizing m with
  | nil => exact ⟨hv, rfl⟩
  | cons op ops ih =>
    obtain ⟨hvalid, hwithin, hlegal⟩ := hlegal
    obtain ⟨hfit, hfits⟩ := hfits
    obtain ⟨hv', hcontents⟩ := exec_spec hv op hvalid hfit
    rw [← hcontents hwithin] at hlegal
    obtain ⟨hvr, hr⟩ := ih (exec m op) hv' hlegal hfits
    exact ⟨hvr, hr.trans (by rw [hcontents hwithin]; rfl)⟩

/-- CORRECT: after any legal run that fits into `SizeType`, every bucket holds what the list of
    lists holds, and `element_count()` is the number of all entries. -/
theorem execs_refine_lists [Inhabited T] (ops : List (Op T)) (hlegal : Legal [] ops)
    (hfits : AllFit (empty T) ops) :
    contents (execs (empty T) ops) = absRun [] ops ∧
      (execs (empty T) ops).elementCount = ((absRun [] ops).map List.length).sum := by
  obtain ⟨hv, hcontents⟩ := execs_spec ops (empty T) valid_empty hlegal hfits
  have hnil : contents (empty T) = [] := rfl
  rw [hnil] at hcontents
  exact ⟨hcontents, by rw [← hcontents]; exact count_eq_contents hv⟩

/-- Bucket 0 moves away, and gives its block to the free list of order 0. -/
theorem execs_refine_lists_two_buckets :
    contents (execs (empty ℕ) [.pushBack 0 4, .pushBack 1 15, .pushBack 0 8, .erase 0 0]) =
        [[8], [15]] ∧
      (execs (empty ℕ) [.pushBack 0 4, .pushBack 1 15, .pushBack 0 8, .erase 0 0]).elementCount
        = 2 := by
  refine execs_refine_lists [.pushBack 0 4, .pushBack 1 15, .pushBack 0 8, .erase 0 0] ?_ ?_
  · simp [Legal, Op.ValidAt, Op.WithinMax, absStep, Op.bucket, Op.onList, maxEntriesPerBucket,
      log2MaxEntriesPerBucket, List.modify]
  · refine ⟨⟨by decide, fun _ => ?_⟩, ⟨by decide, fun _ => ?_⟩, ⟨by decide, fun _ => ?_⟩,
      ⟨by decide, fun _ => ?_⟩, trivial⟩
    all_goals exact of_decide_eq_true rfl

/-- `mm[2 ^ 32 - 1]` drops the bucket that the list of lists still has. -/
theorem operatorIndex_last_drops :
    Legal [] ([.pushBack 0 7, .create (2 ^ 32 - 1)] : List (Op ℕ)) ∧
      contents (execs (empty ℕ) [.pushBack 0 7, .create (2 ^ 32 - 1)]) ≠
        absRun [] [.pushBack 0 7, .create (2 ^ 32 - 1)] := by
  refine ⟨by simp [Legal, Op.ValidAt, Op.WithinMax, maxEntriesPerBucket, log2MaxEntriesPerBucket],
    fun h => ?_⟩
  have hcode : contents (execs (empty ℕ) [.pushBack 0 7, .create (2 ^ 32 - 1)]) = [] := rfl
  have habs : (absRun [] ([.pushBack 0 7, .create (2 ^ 32 - 1)] : List (Op ℕ)))[0]? =
      some [7] := by
    simp only [absRun, List.foldl_cons, List.foldl_nil]
    rw [absStep_eq_of_id _ fun _ => rfl, List.getElem?_append_left (by simp [absStep, Op.bucket])]
    simp [absStep, Op.bucket, Op.onList]
  rw [← h, hcode] at habs
  simp at habs

/-! ### The storage along a run -/

/-- The blocks of the buckets and the free blocks partition `data_`; every block has the size of an
    order, every free block is in the list of its order, and every bucket fits into its block. -/
structure StorageInvariant (m : Multimap T D) : Prop where
  disjoint : m.blocks.Pairwise Apart
  cover : ∀ x, x < m.data.length ↔ ∃ b ∈ m.blocks, covers x b
  powers : ∀ e ∈ m.index ++ m.freeBuckets.flatten, 0 < e.capacity → ∃ k, e.capacity = 2 ^ k
  lists : ∀ k, ∀ e ∈ m.freeBuckets.getD k [], e.capacity = 2 ^ k
  sizes : ∀ e ∈ m.index, e.size ≤ e.capacity

/-- The calls are made with valid iterators; they may throw. -/
def Callable [Inhabited T] : Multimap T Unit → List (Op T) → Prop
  | _, [] => True
  | m, op :: ops => op.ValidAt ((contents m).getD op.bucket []).length ∧ Callable (exec m op) ops

theorem Valid.storage {m : Multimap T D} (hv : Valid m) : StorageInvariant m where
  disjoint := hv.tiles.pairwise
  cover := hv.tiles.lt_iff
  powers := by
    intro e he hpos
    rcases List.mem_append.mp he with h | h
    · obtain ⟨k, -, hk⟩ := hv.order e h (by omega)
      exact ⟨k, hk⟩
    · obtain ⟨l, hl, hel⟩ := List.mem_flatten.mp h
      obtain ⟨k, hk, rfl⟩ := List.getElem_of_mem hl
      exact ⟨k, hv.free k e (by simpa [hk] using hel)⟩
  lists := hv.free
  sizes := hv.size

theorem execs_valid [Inhabited T] (ops : List (Op T)) (m : Multimap T Unit) (hv : Valid m)
    (hcalls : Callable m ops) (hfits : AllFit m ops) : Valid (execs m ops) := by
  induction ops generalizing m with
  | nil => exact hv
  | cons op ops ih =>
    obtain ⟨hvalid, hcalls⟩ := hcalls
    obtain ⟨hfit, hfits⟩ := hfits
    exact ih (exec m op) (exec_spec hv op hvalid hfit).1 hcalls hfits

/-- CORRECT: every state that a run within `SizeType` reaches has the storage invariant, calls that
    throw included. -/
theorem execs_keep_storage [Inhabited T] (ops : List (Op T)) (hcalls : Callable (empty T) ops)
    (hfits : AllFit (empty T) ops) : StorageInvariant (execs (empty T) ops) :=
  (execs_valid ops (empty T) valid_empty hcalls hfits).storage

/-- After the block of bucket 0 has been recycled by bucket 2, and a growth has thrown. -/
theorem execs_keep_storage_recycled :
    StorageInvariant (execs (empty ℕ) [.pushBack 0 4, .pushBack 1 15, .pushBack 0 8,
      .pushBack 2 16, .reserve 2 (2 ^ 20 + 1)]) := by
  refine execs_keep_storage _ ⟨trivial, trivial, trivial, trivial, trivial, trivial⟩ ?_
  refine ⟨⟨by decide, fun _ => ?_⟩, ⟨by decide, fun _ => ?_⟩, ⟨by decide, fun _ => ?_⟩,
    ⟨by decide, fun _ => ?_⟩, ⟨by decide, fun _ => ?_⟩, trivial⟩
  all_goals exact of_decide_eq_true rfl

/-- `mm[2 ^ 32 - 1]` leaves slots that belong to no bucket and to no free list. -/
theorem operatorIndex_last_leaks :
    Callable (empty ℕ) [.pushBack 0 7, .create (2 ^ 32 - 1)] ∧
      ¬ StorageInvariant (execs (empty ℕ) [.pushBack 0 7, .create (2 ^ 32 - 1)]) := by
  refine ⟨⟨trivial, trivial, trivial⟩, fun h => ?_⟩
  have hblocks : (execs (empty ℕ) [.pushBack 0 7, .create (2 ^ 32 - 1)]).blocks = [] := rfl
  obtain ⟨b, hb, -⟩ := (h.cover 0).mp (of_decide_eq_true rfl)
  rw [hblocks] at hb
  simp at hb

end Motis.DynamicFwsMultimap
