import Motis.Core.Common.FwsRuns

/-! Erasing a range of entries.

    `erase(first, last)` moves the tail down once, `erase(pos)` for each entry exchanges it to the
    end; the buckets come out the same. The iterators do not:

        erase(pos)            [ a b c d ]  ──▶  [ a c d ]     at c
                                  ↑ pos
        erase(first, last)    [ a b c d ]  ──▶  [ a d ]       at the end
                                  ↑   ↑ -/

namespace Motis.DynamicFwsMultimap
open Slots

variable {T D : Type}

/-- `erase(pos)` for each of `n` entries: the next one has moved to `pos`. -/
def eraseEach (m : Multimap T D) (i pos : ℕ) : ℕ → Multimap T D
  | 0 => m
  | n + 1 => eraseEach (m.erase i pos).1 i pos n

/-- The range is erased like each of its entries. -/
structure SameAsEach (m : Multimap T D) (i first last : ℕ) : Prop where
  contents : contents (m.eraseRange i first last).1 = contents (eraseEach m i first (last - first))
  size : ((m.eraseRange i first last).1.idx i).size =
    ((eraseEach m i first (last - first)).idx i).size
  elementCount : (m.eraseRange i first last).1.elementCount =
    (eraseEach m i first (last - first)).elementCount

variable {m : Multimap T D} {i : ℕ}

/-- `erase(pos)` returns the place of the entry that followed. -/
theorem erase_snd (hi : i < m.index.length) {pos : ℕ} (hpos : pos < (m.idx i).size) :
    (m.erase i pos).2 = pos := by
  have hindex : (m.erase i pos).1.index =
      m.index.set i { m.idx i with size := (m.idx i).size - 1 } := rfl
  have hsize : ((m.erase i pos).1.idx i).size = (m.idx i).size - 1 := by
    rw [idx_of_set_self hi hindex]
  have hsnd : (m.erase i pos).2 =
      if pos < ((m.erase i pos).1.idx i).size then pos else ((m.erase i pos).1.idx i).size := rfl
  rw [hsnd, hsize]
  split
  · rfl
  · omega

theorem take_drop_eraseIdx (l : List T) {first n : ℕ} (h : first < l.length) :
    (l.eraseIdx first).take first ++ (l.eraseIdx first).drop (first + n) =
      l.take first ++ l.drop (first + (n + 1)) := by
  have hlen : (l.take first).length = first := by
    rw [List.length_take]
    omega
  rw [List.eraseIdx_eq_take_drop_succ, List.take_append_of_le_length hlen.ge, List.take_take,
    Nat.min_self, List.drop_append, hlen, List.drop_drop]
  have hnil : (l.take first).drop (first + n) = [] :=
    List.drop_eq_nil_of_le (by rw [hlen]; exact Nat.le_add_right ..)
  have hplace : first + 1 + (first + n - first) = first + (n + 1) := by omega
  rw [hnil, List.nil_append, hplace]

theorem updated_eraseEach : ∀ (n : ℕ) {m : Multimap T D} {first : ℕ}, Valid m →
    i < m.index.length → first + n ≤ (m.idx i).size →
      Updated m (eraseEach m i first n) i fun l => l.take first ++ l.drop (first + n)
  | 0, m, first, hv, _, _ => by
    refine ⟨hv, rfl, ?_, fun _ _ => rfl⟩
    rw [eraseEach]
    exact (List.take_append_drop first (m.bucket i)).symm
  | n + 1, m, first, hv, hi, hle => by
    have hu := updated_erase hv hi (by omega : first < (m.idx i).size)
    have hi' : i < (m.erase i first).1.index.length := by rw [hu.length_eq]; exact hi
    have hindex : (m.erase i first).1.index =
        m.index.set i { m.idx i with size := (m.idx i).size - 1 } := rfl
    have hsize : ((m.erase i first).1.idx i).size = (m.idx i).size - 1 := by
      rw [idx_of_set_self hi hindex]
    have hrest := updated_eraseEach n hu.valid hi' (by omega : first + n ≤ _)
    refine ⟨hrest.valid, hrest.length_eq.trans hu.length_eq, ?_, fun j hj =>
      (hrest.other j hj).trans (hu.other j hj)⟩
    rw [eraseEach, hrest.self, hu.self]
    exact take_drop_eraseIdx _ (by rw [length_bucket hv]; omega)

theorem sameAsEach (hv : Valid m) (hi : i < m.index.length) {first last : ℕ} (hfl : first ≤ last)
    (hl : last ≤ (m.idx i).size) : SameAsEach m i first last := by
  have hrange := updated_eraseRange hv hi hfl hl
  have heach := updated_eraseEach (last - first) hv hi (by omega : first + (last - first) ≤ _)
  have hlast : first + (last - first) = last := by omega
  rw [hlast] at heach
  have hcontents := hrange.contents_eq.trans heach.contents_eq.symm
  refine ⟨hcontents, ?_, ?_⟩
  · rw [← length_bucket hrange.valid, ← length_bucket heach.valid, hrange.self, heach.self]
  · rw [count_eq_contents hrange.valid, count_eq_contents heach.valid, hcontents]

/-- `erase(first, last)` returns the end. -/
theorem eraseRange_snd (hv : Valid m) (hi : i < m.index.length) {first last : ℕ}
    (hfl : first ≤ last) (hl : last ≤ (m.idx i).size) :
    (m.eraseRange i first last).2 = first + ((m.idx i).size - last) := by
  have hu := updated_eraseRange hv hi hfl hl
  calc (m.eraseRange i first last).2
      = ((m.eraseRange i first last).1.idx i).size := rfl
    _ = ((m.bucket i).take first ++ (m.bucket i).drop last).length := by
        rw [← length_bucket hu.valid, hu.self]
    _ = first + ((m.idx i).size - last) := by
        rw [List.length_append, List.length_take, List.length_drop, length_bucket hv]
        omega

/-- A range of every bucket is erased like each of its entries, and the iterator is at the entry
    that followed if and only if nothing followed. -/
theorem eraseRange_iff (m : Multimap T D) (i first last : ℕ) (hv : Valid m)
    (hi : i < m.index.length) (hfl : first ≤ last) (hl : last ≤ (m.idx i).size) :
    SameAsEach m i first last ∧
      (SameAsEach m i first last ∧ (m.eraseRange i first last).2 = first ↔
        last = (m.idx i).size) := by
  have hsame := sameAsEach hv hi hfl hl
  refine ⟨hsame, ?_⟩
  rw [eraseRange_snd hv hi hfl hl]
  constructor
  · rintro ⟨-, hsnd⟩
    omega
  · intro hlast
    exact ⟨hsame, by omega⟩

/-- The buckets `[4, 8]` and `[15, 16, 23, 42]`. -/
def twoBuckets : Multimap ℕ Unit :=
  execs (empty ℕ) [.pushBack 0 4, .pushBack 0 8, .pushBack 1 15, .pushBack 1 16, .pushBack 1 23,
    .pushBack 1 42]

theorem valid_twoBuckets : Valid twoBuckets := by
  refine execs_valid _ (empty ℕ) valid_empty ⟨trivial, trivial, trivial, trivial, trivial, trivial,
    trivial⟩ ?_
  refine ⟨⟨by decide, fun _ => ?_⟩, ⟨by decide, fun _ => ?_⟩, ⟨by decide, fun _ => ?_⟩,
    ⟨by decide, fun _ => ?_⟩, ⟨by decide, fun _ => ?_⟩, ⟨by decide, fun _ => ?_⟩, trivial⟩
  all_goals exact of_decide_eq_true rfl

/-- The last two entries are erased, and the iterator is at the end. -/
theorem eraseRange_iff_twoBuckets :
    SameAsEach twoBuckets 1 2 4 ∧ (twoBuckets.eraseRange 1 2 4).2 = 2 :=
  (eraseRange_iff twoBuckets 1 2 4 valid_twoBuckets (of_decide_eq_true rfl) (by omega)
    (of_decide_eq_true rfl)).2.mpr (of_decide_eq_true rfl)

/-- The first two entries are erased, and the iterator is not at 23. -/
theorem eraseRange_returns_end : ¬∀ (m : Multimap ℕ Unit) (i first last : ℕ), Valid m →
    i < m.index.length → first ≤ last → last ≤ (m.idx i).size →
      SameAsEach m i first last ∧ (m.eraseRange i first last).2 = first := by
  intro h
  have hsnd := (h twoBuckets 1 0 2 valid_twoBuckets (of_decide_eq_true rfl) (by omega)
    (of_decide_eq_true rfl)).2
  exact absurd hsnd (of_decide_eq_true rfl)

end Motis.DynamicFwsMultimap
