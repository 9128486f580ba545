import Mathlib.Data.Nat.Bitwise
import Motis.Android.FlatBufferBuilder
import Motis.Lib.Fallible

/-! What the operations of `FlatBufferBuilder` put into the buffer.

    Each operation puts bytes before those that are there. As long as the buffer stays below the
    limit of `growByteBuffer`, none of them fails, and what is written is aligned: numbers of `n`
    bytes lie at offsets from the end that `n` divides. -/

namespace Motis.Android.FlatBufferBuilder
open ByteStack Fallible

/-- The capacity up to which the buffer grows. -/
def maxSize : ℕ := 0x40000000

/-- The sizes of numbers. -/
def IsSize (size : ℕ) : Prop := size = 1 ∨ size = 2 ∨ size = 4 ∨ size = 8

theorem IsSize.pos {size : ℕ} (h : IsSize size) : 0 < size := by
  rcases h with rfl | rfl | rfl | rfl <;> decide

theorem growByteBuffer_spec (capacity : ℕ+) (used need : ℕ) (hroom : used + need ≤ maxSize) :
    ∃ capacity' : ℕ+, growByteBuffer capacity used need = .ok capacity' ∧
      used + need ≤ capacity' ∧ (capacity : ℕ) ≤ capacity' := by
  fun_induction growByteBuffer capacity used need with
  | case1 capacity hfits => exact ⟨capacity, rfl, hfits, le_rfl⟩
  | case2 capacity hfull hlimit =>
    rw [maxSize] at hroom
    omega
  | case3 capacity hfull hlimit ih =>
    obtain ⟨capacity', hgrow, hfits, hle⟩ := ih
    have hdouble : ((2 * capacity : ℕ+) : ℕ) = 2 * (capacity : ℕ) := rfl
    exact ⟨capacity', hgrow, hfits, by omega⟩

/-- The padding makes the size a divisor. -/
theorem alignSize_spec {size : ℕ} (hsize : IsSize size) (used : ℕ) :
    alignSize size used < size ∧ (alignSize size used + used) % size = 0 := by
  have hmask : ∀ k, k < 32 →
      alignSize (2 ^ k) used = (2 ^ 32 - used % 2 ^ 32) % 2 ^ 32 % 2 ^ k := by
    intro k hk
    have hle : 2 ^ k ≤ 2 ^ 31 := Nat.pow_le_pow_right (by decide) (by omega)
    have hsmall : (2 ^ k - 1) % 2 ^ 32 = 2 ^ k - 1 := Nat.mod_eq_of_lt (by omega)
    rw [alignSize, BitVec.toNat_and, BitVec.toNat_ofNat, hsmall, Nat.and_two_pow_sub_one_eq_mod]
    congr 1
    have hone : (1 : BitVec 32).toNat = 1 := rfl
    rw [BitVec.toNat_add, BitVec.toNat_not, BitVec.toNat_ofNat, hone]
    have hlt : used % 2 ^ 32 < 2 ^ 32 := Nat.mod_lt _ (by decide)
    omega
  have h0 := hmask 0 (by decide)
  have h1 := hmask 1 (by decide)
  have h2 := hmask 2 (by decide)
  have h3 := hmask 3 (by decide)
  norm_num at h0 h1 h2 h3
  rcases hsize with rfl | rfl | rfl | rfl <;> omega

/-- Bytes are put before those that are there; nothing else changes but the capacity and the
    alignment. -/
def Writes (b b' : FlatBufferBuilder) (bs : List UInt8) : Prop :=
  ∃ (capacity : ℕ+) (minalign : ℕ), (b.capacity : ℕ) ≤ capacity ∧
    (bs ++ b.bytes).length ≤ capacity ∧ b.minalign ≤ minalign ∧
    (IsSize b.minalign → IsSize minalign) ∧
    b' = { b with bytes := bs ++ b.bytes, capacity := capacity, minalign := minalign }

section Writes
variable {b b' b'' : FlatBufferBuilder} {bs bs' : List UInt8}

theorem Writes.trans (h : Writes b b' bs) (h' : Writes b' b'' bs') : Writes b b'' (bs' ++ bs) := by
  obtain ⟨capacity, minalign, hgrown, -, hle, hsize, rfl⟩ := h
  obtain ⟨capacity', minalign', hgrown', hfits, hle', hsize', rfl⟩ := h'
  refine ⟨capacity', minalign', hgrown.trans hgrown', ?_, hle.trans hle',
    fun h => hsize' (hsize h), ?_⟩
  · rwa [List.append_assoc]
  · simp

theorem Writes.bytes (h : Writes b b' bs) : b'.bytes = bs ++ b.bytes := by
  obtain ⟨_, _, -, -, -, -, rfl⟩ := h
  rfl

/-- Only the bytes, the capacity and the alignment change. -/
theorem Writes.same (h : Writes b b' bs) : b'.vtable = b.vtable ∧ b'.nested = b.nested ∧
    b'.objectStart = b.objectStart ∧ b'.vtables = b.vtables ∧
    b'.vectorNumElems = b.vectorNumElems ∧ b'.forceDefaults = b.forceDefaults := by
  obtain ⟨_, _, -, -, -, -, rfl⟩ := h
  exact ⟨rfl, rfl, rfl, rfl, rfl, rfl⟩

theorem Writes.grown (h : Writes b b' bs) : (b.capacity : ℕ) ≤ b'.capacity ∧
    b'.offset ≤ b'.capacity ∧ b.minalign ≤ b'.minalign ∧
    (IsSize b.minalign → IsSize b'.minalign) := by
  obtain ⟨_, _, hgrown, hfits, hle, hsize, rfl⟩ := h
  exact ⟨hgrown, hfits, hle, hsize⟩

theorem Writes.offset (h : Writes b b' bs) : b'.offset = bs.length + b.offset := by
  rw [FlatBufferBuilder.offset, h.bytes, List.length_append]
  rfl

theorem Writes.suffix (h : Writes b b' bs) : b.bytes <:+ b'.bytes := by
  rw [h.bytes]
  exact List.suffix_append _ _

theorem Writes.holds (h : Writes b b' bs) : Holds b'.bytes b'.offset bs := by
  rw [FlatBufferBuilder.offset, h.bytes]
  exact holds_push bs _

end Writes

/-! ### Numbers and offsets -/

section Numbers
variable {b : FlatBufferBuilder} {size : ℕ}

theorem put_eq {bs : List UInt8} (hsize : b.bytes.length + bs.length ≤ b.capacity) :
    b.put bs = .ok { b with bytes := bs ++ b.bytes } := if_pos hsize

theorem put_spec (bs : List UInt8) (hsize : b.offset + bs.length ≤ b.capacity) :
    ∃ b', b.put bs = .ok b' ∧ Writes b b' bs := by
  refine ⟨_, put_eq hsize, b.capacity, b.minalign, le_rfl, ?_, le_rfl, id, rfl⟩
  rw [List.length_append, Nat.add_comm]
  exact hsize

/-- Padding, and room for what follows. -/
theorem prep_spec (hsize : IsSize size) (additional : ℕ)
    (hroom : b.offset + (2 * size + additional) ≤ maxSize) :
    ∃ b' k, b.prep size additional = .ok b' ∧ Writes b b' (List.replicate k 0) ∧ k < size ∧
      (b'.offset + additional) % size = 0 ∧ b'.offset + size + additional ≤ b'.capacity ∧
      size ≤ b'.minalign := by
  rw [FlatBufferBuilder.offset] at hroom
  obtain ⟨hlt, hmod⟩ := alignSize_spec hsize (b.bytes.length + additional)
  obtain ⟨capacity, hgrow, hfits, hle⟩ := growByteBuffer_spec b.capacity b.bytes.length
    (alignSize size (b.bytes.length + additional) + size + additional) (by omega)
  refine ⟨{ b with
    bytes := List.replicate (alignSize size (b.bytes.length + additional)) 0 ++ b.bytes
    capacity := capacity
    minalign := if b.minalign < size then size else b.minalign },
    alignSize size (b.bytes.length + additional), ?_, ⟨capacity, _, hle, ?_, ?_, ?_, rfl⟩, hlt, ?_,
    ?_, ?_⟩
  · rw [prep]
    dsimp only [FlatBufferBuilder.offset]
    rw [hgrow]
    refine put_eq ?_
    show b.bytes.length + (List.replicate _ (0 : UInt8)).length ≤ (capacity : ℕ)
    rw [List.length_replicate]
    omega
  · rw [List.length_append, List.length_replicate]
    omega
  · split_ifs <;> omega
  · intro halign
    split_ifs
    · exact hsize
    · exact halign
  · rw [FlatBufferBuilder.offset, List.length_append, List.length_replicate, Nat.add_assoc]
    exact hmod
  · rw [FlatBufferBuilder.offset, List.length_append, List.length_replicate]
    show _ ≤ (capacity : ℕ)
    omega
  · dsimp only
    split_ifs <;> omega

/-- A number, aligned. -/
theorem addNumber_spec (hsize : IsSize size) (x : ℤ) (hroom : b.offset + 2 * size ≤ maxSize) :
    ∃ b' k, b.addNumber size x = .ok b' ∧ Writes b b' (toBytes size x ++ List.replicate k 0) ∧
      k < size ∧ size ∣ b'.offset ∧ size ≤ b'.minalign := by
  obtain ⟨b₁, k, hprep, hwrites, hk, hmod, hfits, hminalign⟩ := prep_spec hsize 0 hroom
  obtain ⟨b₂, hput, hwrites'⟩ := put_spec (b := b₁) (toBytes size x) (by
    rw [length_toBytes]
    exact hfits)
  refine ⟨b₂, k, ?_, hwrites.trans hwrites', hk, ?_, ?_⟩
  · rw [addNumber, hprep]
    exact hput
  · rw [hwrites'.offset, length_toBytes]
    exact (Nat.dvd_add_right (dvd_refl size)).mpr (Nat.dvd_of_mod_eq_zero hmod)
  · exact hminalign.trans hwrites'.grown.2.2.1

/-- An offset is written as the distance to what it refers to. -/
theorem addOffset_spec (off : ℕ) (hoff : off ≤ b.offset) (hroom : b.offset + 8 ≤ maxSize) :
    ∃ b' k, b.addOffset off = .ok b' ∧
      Writes b b' (toBytes 4 (b'.offset - off) ++ List.replicate k 0) ∧ k < 4 ∧
      4 ∣ b'.offset ∧ 4 ≤ b'.minalign := by
  obtain ⟨b₁, k, hprep, hwrites, hk, hmod, hfits, hminalign⟩ := prep_spec
    (.inr (.inr (.inl rfl)) : IsSize 4) 0 hroom
  obtain ⟨b₂, hput, hwrites'⟩ := put_spec (b := b₁) (toBytes 4 (b₁.offset - off + 4)) (by
    rw [length_toBytes]
    exact hfits)
  have hoffset := hwrites'.offset
  rw [length_toBytes] at hoffset
  have hle := hwrites.offset
  have hvalue : ((b₂.offset : ℤ) - off) = b₁.offset - off + 4 := by
    rw [hoffset]
    push_cast
    ring
  refine ⟨b₂, k, ?_, ?_, hk, ?_, ?_⟩
  · rw [addOffset, SIZEOF_INT, hprep]
    have hnot : ¬ b₁.offset < off := by omega
    simp only [bind, Except.bind, hnot, if_false]
    exact hput
  · rw [hvalue]
    exact hwrites.trans hwrites'
  · rw [hoffset]
    exact (Nat.dvd_add_right (dvd_refl 4)).mpr (Nat.dvd_of_mod_eq_zero hmod)
  · exact hminalign.trans hwrites'.grown.2.2.1

end Numbers

end Motis.Android.FlatBufferBuilder
