import Mathlib.Data.List.FinRange
import Mathlib.Data.List.ProdSigma
import Mathlib.Data.UInt
import Motis.Lib.Fallible
import Motis.Lib.Walks

/-! `floyd_warshall`: the distances of a matrix, in place.

    The rows of a `flat_matrix` follow each other, and positions are computed with the 32 bits of the
    column count:

        entries_[column_count_ * row_index + column_index]

    Sums are computed with 64 bits and capped at the greatest entry, which stands for a missing
    edge. -/

namespace Motis

structure FlatMatrix (α : Type) where
  columnCount : UInt32
  entries : List α
  deriving DecidableEq

namespace FlatMatrix

variable {α : Type}

inductive Failure where
  | verify (message : String)
  | outOfRange
  deriving DecidableEq, Repr

/-- An index becomes an `int`, and unsigned again when it meets the column count. -/
def pos (mat : FlatMatrix α) (rowIndex columnIndex : ℕ) : ℕ :=
  (mat.columnCount * .ofNat rowIndex + .ofNat columnIndex).toNat

/-- `mat(row_index, column_index)` -/
def get (mat : FlatMatrix α) (rowIndex columnIndex : ℕ) : Except Failure α :=
  match mat.entries[mat.pos rowIndex columnIndex]? with
  | some e => .ok e
  | none => .error .outOfRange

def set (mat : FlatMatrix α) (rowIndex columnIndex : ℕ) (e : α) : FlatMatrix α :=
  { mat with entries := mat.entries.set (mat.pos rowIndex columnIndex) e }

/-- `make_flat_matrix` and `make_std_flat_matrix`. -/
def makeFlatMatrix (columnCount : UInt32) (init : α) : FlatMatrix α :=
  ⟨columnCount, List.replicate (columnCount * columnCount).toNat init⟩

/-! ### The loops -/

variable {w : ℕ}

/-- `kMaxDistance`, for entries of `w` bits. -/
def maxDistance (w : ℕ) : BitVec 64 := (BitVec.allOnes w).setWidth 64

def distance (ik kj : BitVec w) : BitVec w :=
  let sum : BitVec 64 := ik.setWidth 64 + kj.setWidth 64
  (if sum < maxDistance w then sum else maxDistance w).setWidth w

/-- The body of the loops. -/
def update (k i : ℕ) (mat : FlatMatrix (BitVec w)) (j : ℕ) :
    Except Failure (FlatMatrix (BitVec w)) := do
  let ik ← mat.get i k
  let kj ← mat.get k j
  let ij ← mat.get i j
  if distance ik kj < ij then pure (mat.set i j (distance ik kj)) else pure mat

def floydWarshall (mat : FlatMatrix (BitVec w)) : Except Failure (FlatMatrix (BitVec w)) :=
  let n := mat.columnCount.toNat
  if mat.entries.length = (mat.columnCount * mat.columnCount).toNat then
    (List.range n).foldlM (fun mat k =>
      (List.range n).foldlM (fun mat i =>
        (List.range n).foldlM (update k i) mat) mat) mat
  else .error (.verify "floyd_warshall: input is not a square matrix.")

/-- The loop variables, in the order of the loops. -/
def iterations (n : ℕ) : List (ℕ × ℕ × ℕ) :=
  (List.range n).flatMap fun k => (List.range n).flatMap fun i => (List.range n).map fun j =>
    (k, i, j)

/-- Some iterations, one after the other. -/
def iterate (mat : FlatMatrix (BitVec w)) (l : List (ℕ × ℕ × ℕ)) :
    Except Failure (FlatMatrix (BitVec w)) :=
  l.foldlM (fun mat (k, i, j) => update k i mat j) mat

theorem floydWarshall_of_verify {mat : FlatMatrix (BitVec w)}
    (h : mat.entries.length = (mat.columnCount * mat.columnCount).toNat) :
    floydWarshall mat = iterate mat (iterations mat.columnCount.toNat) := by
  rw [floydWarshall, if_pos h, iterate, iterations, Fallible.foldlM_flatMap]
  simp only [Fallible.foldlM_flatMap, List.foldlM_map]

/-! ### Squares -/

def IsSquare (mat : FlatMatrix α) : Prop :=
  mat.entries.length = mat.columnCount.toNat * mat.columnCount.toNat

/-- The entry in a row and a column of a square. -/
def entry (mat : FlatMatrix (BitVec w)) (i j : ℕ) : ℕ :=
  ((mat.entries[mat.columnCount.toNat * i + j]?).map BitVec.toNat).getD 0

/-- A square of few enough columns with these entries. -/
structure Represents {n : ℕ} (mat : FlatMatrix (BitVec w)) (d : Fin n → Fin n → ℕ) : Prop where
  columnCount : mat.columnCount.toNat = n
  lt : n < 2 ^ 16
  length : mat.entries.length = n * n
  entries : ∀ i j : Fin n, (mat.entries[n * i + j]?).map BitVec.toNat = some (d i j)

variable {n : ℕ} {mat : FlatMatrix (BitVec w)} {d : Fin n → Fin n → ℕ}

theorem index_lt (i j : Fin n) : n * i + j < n * n :=
  calc n * i + j < n * i + n := Nat.add_lt_add_left j.isLt _
    _ = n * (i + 1) := (Nat.mul_succ ..).symm
    _ ≤ n * n := Nat.mul_le_mul_left n i.isLt

theorem index_inj {i j a b : Fin n} : n * (i : ℕ) + j = n * a + b ↔ i = a ∧ j = b := by
  constructor
  · intro h
    have hn : 0 < n := i.pos
    have hdiv : (n * (i : ℕ) + j) / n = (n * (a : ℕ) + b) / n := by rw [h]
    rw [Nat.mul_add_div hn, Nat.mul_add_div hn, Nat.div_eq_of_lt j.isLt,
      Nat.div_eq_of_lt b.isLt] at hdiv
    have hia : i = a := Fin.ext (by simpa using hdiv)
    refine ⟨hia, Fin.ext ?_⟩
    rw [hia] at h
    exact Nat.add_left_cancel h
  · rintro ⟨rfl, rfl⟩
    rfl

theorem Represents.pos_eq (h : Represents mat d) (i j : Fin n) : mat.pos i j = n * i + j := by
  have hindex : n * i + j < n * n := index_lt i j
  have hsq : n * n ≤ (2 ^ 16 - 1) * (2 ^ 16 - 1) :=
    Nat.mul_le_mul (Nat.le_sub_one_of_lt h.lt) (Nat.le_sub_one_of_lt h.lt)
  have hi : (i : ℕ) < 2 ^ 32 := (i.isLt.trans h.lt).trans (by decide)
  have hj : (j : ℕ) < 2 ^ 32 := (j.isLt.trans h.lt).trans (by decide)
  rw [pos, UInt32.toNat_add, UInt32.toNat_mul, UInt32.toNat_ofNat_of_lt' hi,
    UInt32.toNat_ofNat_of_lt' hj, h.columnCount, Nat.mod_add_mod]
  exact Nat.mod_eq_of_lt (by omega)

theorem Represents.get_eq (h : Represents mat d) (i j : Fin n) :
    ∃ e, mat.get i j = .ok e ∧ e.toNat = d i j := by
  obtain ⟨e, hget, he⟩ := Option.map_eq_some_iff.mp (h.entries i j)
  exact ⟨e, by rw [get, h.pos_eq, hget], he⟩

theorem Represents.set_eq (h : Represents mat d) (i j : Fin n) (e : BitVec w) :
    Represents (mat.set i j e) fun a b => if a = i ∧ b = j then e.toNat else d a b where
  columnCount := h.columnCount
  lt := h.lt
  length := (List.length_set ..).trans h.length
  entries a b := by
    rw [set, h.pos_eq, List.getElem?_set, h.length]
    by_cases heq : a = i ∧ b = j
    · rw [if_pos (index_inj.mpr ⟨heq.1.symm, heq.2.symm⟩), if_pos (index_lt i j), if_pos heq]
      rfl
    · rw [if_neg fun hindex => heq ⟨(index_inj.mp hindex).1.symm, (index_inj.mp hindex).2.symm⟩,
        if_neg heq]
      exact h.entries a b

/-! ### Sums -/

theorem toNat_maxDistance (hw : w ≤ 32) : (maxDistance w).toNat = 2 ^ w - 1 := by
  have hpow : 2 ^ w ≤ 2 ^ 32 := Nat.pow_le_pow_right (by decide) hw
  rw [maxDistance, BitVec.toNat_setWidth, BitVec.toNat_allOnes]
  omega

/-- Entries have 32 bits at most. -/
theorem toNat_sum (hw : w ≤ 32) (ik kj : BitVec w) :
    (ik.setWidth 64 + kj.setWidth 64 : BitVec 64).toNat = ik.toNat + kj.toNat := by
  have hpow : 2 ^ w ≤ 2 ^ 32 := Nat.pow_le_pow_right (by decide) hw
  have hik := ik.isLt
  have hkj := kj.isLt
  rw [BitVec.toNat_add, BitVec.toNat_setWidth, BitVec.toNat_setWidth]
  omega

theorem toNat_distance (hw : w ≤ 32) (ik kj : BitVec w) :
    (distance ik kj).toNat = min (2 ^ w - 1) (ik.toNat + kj.toNat) := by
  have hpow : 0 < 2 ^ w := Nat.two_pow_pos w
  rw [distance, BitVec.toNat_setWidth]
  split
  · rename_i hlt
    rw [BitVec.lt_def, toNat_sum hw, toNat_maxDistance hw] at hlt
    rw [toNat_sum hw, Nat.min_eq_right hlt.le, Nat.mod_eq_of_lt (by omega)]
  · rename_i hle
    rw [BitVec.lt_def, toNat_sum hw, toNat_maxDistance hw, not_lt] at hle
    rw [toNat_maxDistance hw, Nat.min_eq_left hle, Nat.mod_eq_of_lt (by omega)]

/-! ### Runs of the loops -/

theorem Represents.update_eq (hw : w ≤ 32) (h : Represents mat d) (k i j : Fin n) :
    ∃ e : BitVec w, e.toNat = min (2 ^ w - 1) (d i k + d k j) ∧
      update k i mat j = .ok (if e.toNat < d i j then mat.set i j e else mat) := by
  obtain ⟨ik, hget_ik, hik⟩ := h.get_eq i k
  obtain ⟨kj, hget_kj, hkj⟩ := h.get_eq k j
  obtain ⟨ij, hget_ij, hij⟩ := h.get_eq i j
  refine ⟨distance ik kj, by rw [toNat_distance hw, hik, hkj], ?_⟩
  have hiff : distance ik kj < ij ↔ (distance ik kj).toNat < d i j := by
    rw [BitVec.lt_def, hij]
  rw [FlatMatrix.update, hget_ik, hget_kj, hget_ij, apply_ite Except.ok]
  exact if_congr hiff rfl rfl

/-- One iteration relaxes one pair. -/
theorem Represents.update (hw : w ≤ 32) (h : Represents mat d) (k i j : Fin n) :
    ∃ mat', update k i mat j = .ok mat' ∧
      Represents mat' (Walks.relax (2 ^ w - 1) k d (i, j)) := by
  obtain ⟨e, he, hupdate⟩ := h.update_eq hw k i j
  refine ⟨_, hupdate, ?_⟩
  split
  · rename_i hlt
    have hset := h.set_eq i j e
    have hrelax : Walks.relax (2 ^ w - 1) k d (i, j) =
        fun a b => if a = i ∧ b = j then e.toNat else d a b := by
      funext a b
      rw [Walks.relax]
      refine if_ctx_congr Iff.rfl ?_ fun _ => rfl
      rintro ⟨rfl, rfl⟩
      rw [← he, Nat.min_eq_right hlt.le]
    rwa [hrelax]
  · rename_i hle
    have hrelax : Walks.relax (2 ^ w - 1) k d (i, j) = d := by
      funext a b
      rw [Walks.relax, ite_eq_right_iff]
      rintro ⟨rfl, rfl⟩
      rw [← he, Nat.min_eq_left (not_lt.mp hle)]
    rwa [hrelax]

/-- The iterations over the indices of a square. -/
def finIterations (n : ℕ) : List (Fin n × Fin n × Fin n) :=
  (List.finRange n).flatMap fun k => (List.finRange n).flatMap fun i =>
    (List.finRange n).map fun j => (k, i, j)

def toIteration (p : Fin n × Fin n × Fin n) : ℕ × ℕ × ℕ := (p.1, p.2.1, p.2.2)

theorem iterations_eq : iterations n = (finIterations n).map toIteration := by
  rw [iterations, finIterations, ← List.map_coe_finRange_eq_range]
  simp only [List.flatMap_map, List.map_flatMap, List.map_map]
  rfl

theorem Represents.iterate (hw : w ≤ 32) (h : Represents mat d)
    (l : List (Fin n × Fin n × Fin n)) :
    ∃ mat', iterate mat (l.map toIteration) = .ok mat' ∧ Represents mat'
      (l.foldl (fun d p => Walks.relax (2 ^ w - 1) p.1 d (p.2.1, p.2.2)) d) := by
  rw [FlatMatrix.iterate, List.foldlM_map]
  exact Fallible.foldlM_sim Represents (fun p _ mat d h => h.update hw p.1 p.2.1 p.2.2) h

/-- The pairs, in the order of the inner loops. -/
def pairs (n : ℕ) : List (Fin n × Fin n) := (List.finRange n).product (List.finRange n)

theorem mem_pairs (p : Fin n × Fin n) : p ∈ pairs n :=
  List.pair_mem_product.mpr ⟨List.mem_finRange _, List.mem_finRange _⟩

theorem foldl_finIterations (cap : ℕ) :
    (finIterations n).foldl (fun d p => Walks.relax cap p.1 d (p.2.1, p.2.2)) d =
      Walks.relaxAll cap (pairs n) (List.finRange n) d := by
  have hvia : Walks.relaxVia cap (pairs n) = fun d k => (List.finRange n).foldl (fun d i =>
      (List.finRange n).foldl (fun d j => Walks.relax cap k d (i, j)) d) d := by
    funext d k
    rw [Walks.relaxVia, pairs, List.product, List.foldl_flatMap]
    simp only [List.foldl_map]
  rw [finIterations, List.foldl_flatMap, Walks.relaxAll, hvia]
  simp only [List.foldl_flatMap, List.foldl_map]

/-- A matrix of distances is left alone. -/
theorem Represents.iterate_of_triangle (hw : w ≤ 32) (h : Represents mat d)
    (htriangle : ∀ i k j, d i j ≤ min (2 ^ w - 1) (d i k + d k j))
    (l : List (Fin n × Fin n × Fin n)) :
    FlatMatrix.iterate mat (l.map toIteration) = .ok mat := by
  have hstay : ∀ p ∈ l, ∀ mat' (_ : Unit), mat' = mat →
      ∃ mat'', FlatMatrix.update p.1 p.2.1 mat' p.2.2 = .ok mat'' ∧ mat'' = mat := by
    rintro ⟨k, i, j⟩ - _ - rfl
    obtain ⟨e, he, hupdate⟩ := h.update_eq hw k i j
    have hle : ¬e.toNat < d i j := not_lt.mpr (he ▸ htriangle i k j)
    exact ⟨_, hupdate.trans (by rw [if_neg hle]), rfl⟩
  obtain ⟨mat', hrun, hmat'⟩ := Fallible.foldlM_sim _ (g := fun _ _ => ()) (c := ()) hstay rfl
  rw [FlatMatrix.iterate, List.foldlM_map]
  exact hrun.trans (congrArg _ hmat')

/-! ### Distances -/

/-- No sum of the loops wraps. -/
def ExactSums (mat : FlatMatrix (BitVec w)) : Prop :=
  ∀ before k i j after, iterations mat.columnCount.toNat = before ++ (k, i, j) :: after →
    ∃ mat' ik kj, iterate mat before = .ok mat' ∧ mat'.get i k = .ok ik ∧ mat'.get k j = .ok kj ∧
      (ik.setWidth 64 + kj.setWidth 64 : BitVec 64).toNat = ik.toNat + kj.toNat

/-- `out` is left where `mat` was. -/
structure Distances (mat out : FlatMatrix (BitVec w)) : Prop where
  run : floydWarshall mat = .ok out
  columnCount : out.columnCount = mat.columnCount
  isSquare : IsSquare out
  /-- The least sum along a walk, up to the greatest entry. -/
  shortest : Walks.Shortest (fun i j : Fin mat.columnCount.toNat => mat.entry i j) (2 ^ w - 1)
    fun i j => out.entry i j
  exactSums : ExactSums mat
  again : floydWarshall out = .ok out

theorem toNat_mul_self_of_lt {n : UInt32} (h : n.toNat < 2 ^ 16) :
    (n * n).toNat = n.toNat * n.toNat := by
  have hle : n.toNat * n.toNat ≤ (2 ^ 16 - 1) * (2 ^ 16 - 1) :=
    Nat.mul_le_mul (Nat.le_sub_one_of_lt h) (Nat.le_sub_one_of_lt h)
  rw [UInt32.toNat_mul]
  exact Nat.mod_eq_of_lt (by omega)

/-- The product of the verification has 32 bits. -/
theorem toNat_mul_self_eq_iff {n : UInt32} :
    (n * n).toNat = n.toNat * n.toNat ↔ n.toNat < 2 ^ 16 := by
  refine ⟨fun h => ?_, toNat_mul_self_of_lt⟩
  have hlt : n.toNat * n.toNat < 2 ^ 16 * 2 ^ 16 := h ▸ (n * n).toNat_lt
  exact Nat.mul_self_lt_mul_self_iff.mp hlt

/-- A matrix is made square exactly when it has few enough columns. -/
theorem isSquare_makeFlatMatrix {columnCount : UInt32} {init : α} :
    IsSquare (makeFlatMatrix columnCount init) ↔ columnCount.toNat < 2 ^ 16 := by
  rw [IsSquare, makeFlatMatrix, List.length_replicate]
  exact toNat_mul_self_eq_iff

theorem represents_entry (hsquare : IsSquare mat) (hlt : mat.columnCount.toNat < 2 ^ 16) :
    Represents mat fun i j : Fin mat.columnCount.toNat => mat.entry i j where
  columnCount := rfl
  lt := hlt
  length := hsquare
  entries i j := by
    have hindex := (index_lt i j).trans_eq hsquare.symm
    rw [entry, List.getElem?_eq_getElem hindex]
    rfl

theorem Represents.entry_eq (h : Represents mat d) (i j : Fin n) : mat.entry i j = d i j := by
  rw [entry, h.columnCount, h.entries i j]
  rfl

theorem Represents.isSquare (h : Represents mat d) : IsSquare mat := by
  rw [IsSquare, h.columnCount, h.length]

theorem entry_le (mat : FlatMatrix (BitVec w)) (i j : ℕ) : mat.entry i j ≤ 2 ^ w - 1 := by
  rw [entry]
  cases mat.entries[mat.columnCount.toNat * i + j]? with
  | none => exact Nat.zero_le _
  | some e => exact Nat.le_sub_one_of_lt e.isLt

theorem floydWarshall_eq (hsquare : IsSquare mat) (hlt : mat.columnCount.toNat < 2 ^ 16) :
    floydWarshall mat = iterate mat ((finIterations mat.columnCount.toNat).map toIteration) := by
  rw [floydWarshall_of_verify (hsquare.trans (toNat_mul_self_of_lt hlt).symm), iterations_eq]

theorem exactSums (hw : w ≤ 32) (hsquare : IsSquare mat)
    (hlt : mat.columnCount.toNat < 2 ^ 16) : ExactSums mat := by
  intro before k i j after hsplit
  rw [iterations_eq] at hsplit
  obtain ⟨l, l', -, rfl, hl'⟩ := List.map_eq_append_iff.mp hsplit
  obtain ⟨⟨a, b, c⟩, -, -, hp, -⟩ := List.map_eq_cons_iff.mp hl'
  obtain ⟨rfl, rfl, rfl⟩ : (a : ℕ) = k ∧ (b : ℕ) = i ∧ (c : ℕ) = j := by
    simpa [toIteration] using hp
  obtain ⟨mat', hrun, hmat'⟩ := (represents_entry hsquare hlt).iterate hw l
  obtain ⟨ik, hik, -⟩ := hmat'.get_eq b a
  obtain ⟨kj, hkj, -⟩ := hmat'.get_eq a c
  exact ⟨mat', ik, kj, hrun, hik, hkj, toNat_sum hw ik kj⟩

theorem exists_distances (hw : w ≤ 32) (hsquare : IsSquare mat)
    (hlt : mat.columnCount.toNat < 2 ^ 16) : ∃ out, Distances mat out := by
  obtain ⟨out, hrun, hout⟩ := (represents_entry hsquare hlt).iterate hw
    (finIterations mat.columnCount.toNat)
  rw [foldl_finIterations] at hout
  have hshortest := Walks.shortest_relaxAll
    (fun i j : Fin mat.columnCount.toNat => mat.entry_le i j) mem_pairs List.mem_finRange
  have hcolumn : out.columnCount = mat.columnCount := UInt32.toNat_inj.mp hout.columnCount
  refine ⟨out, (floydWarshall_eq hsquare hlt).trans hrun, hcolumn, hout.isSquare, ?_,
    exactSums hw hsquare hlt, ?_⟩
  · have hentry := funext₂ fun i j => hout.entry_eq i j
    rwa [hentry]
  · rw [floydWarshall_eq hout.isSquare (hcolumn ▸ hlt), hcolumn]
    exact hout.iterate_of_triangle hw hshortest.triangle _

theorem Distances.columnCount_lt {out : FlatMatrix (BitVec w)} (h : Distances mat out)
    (hsquare : IsSquare mat) : mat.columnCount.toNat < 2 ^ 16 := by
  have hrun := h.run
  rw [floydWarshall] at hrun
  split at hrun
  · rename_i hverify
    exact toNat_mul_self_eq_iff.mp (hverify.symm.trans hsquare)
  · cases hrun

/-- The distances of a square of entries with at most 32 bits are found exactly when it has less than
    65536 columns. -/
theorem floydWarshall_iff (hw : w ≤ 32) (mat : FlatMatrix (BitVec w)) (hsquare : IsSquare mat) :
    (∃ out, Distances mat out) ↔ mat.columnCount.toNat < 2 ^ 16 := by
  constructor
  · rintro ⟨out, h⟩
    exact h.columnCount_lt hsquare
  · exact exists_distances hw hsquare

/-- There is no edge from 0 to itself, but a walk of 16. -/
theorem distances_two : ∃ out, Distances (w := 8) ⟨2, [255, 7, 9, 3]⟩ out :=
  (floydWarshall_iff (by decide) ⟨2, [255, 7, 9, 3]⟩ rfl).mpr (by decide)

example : floydWarshall (w := 8) ⟨2, [255, 7, 9, 3]⟩ = .ok ⟨2, [16, 7, 9, 3]⟩ := by decide

def wide : FlatMatrix (BitVec 8) := ⟨65536, List.replicate (65536 * 65536) 0⟩

/-- The square of 65536 is 0. -/
theorem not_distances_wide : ¬∀ w ≤ 32, ∀ mat : FlatMatrix (BitVec w), IsSquare mat →
    ∃ out, Distances mat out := by
  intro h
  have hsquare : IsSquare wide := List.length_replicate
  obtain ⟨out, hout⟩ := h 8 (by decide) wide hsquare
  exact absurd (hout.columnCount_lt hsquare) (by decide)

end FlatMatrix

end Motis
