import Motis.Android.FlatBufferSpecs

/-! What strings, vectors and tables look like in the buffer.

    An object keeps its offset from the end and its bytes, whatever is written after it. A table is
    described by its slots: for each slot the offset of the field, or 0 when it is left out. -/

namespace Motis.Android.FlatBufferBuilder
open ByteStack Fallible

/-! ### The buffer between two objects -/

/-- A vtable: its length in bytes, the length of the table and where the fields are. -/
structure VtableAt (c : List UInt8) (vt : ℕ) (shorts : List ℤ) : Prop where
  holds : Holds c vt (shorts.flatMap (toBytes 2))
  length : ∃ rest, shorts = 2 * (shorts.length : ℤ) :: rest
  inRange : ∀ x ∈ shorts, InRange 2 x

theorem VtableAt.mono {c c' : List UInt8} {vt : ℕ} {shorts : List ℤ} (h : VtableAt c vt shorts)
    (hsuffix : c <:+ c') : VtableAt c' vt shorts :=
  ⟨h.holds.mono hsuffix, h.length, h.inRange⟩

/-- No object is being written. -/
structure Ready (b : FlatBufferBuilder) : Prop where
  idle : b.nested = false
  defaults : b.forceDefaults = false
  aligned : IsSize b.minalign
  fits : b.offset ≤ b.capacity
  shared : ∀ vt ∈ b.vtables, ∃ shorts, VtableAt b.bytes vt shorts

/-- Objects of at most `cost` bytes were put before what was there. -/
structure Extends (b b' : FlatBufferBuilder) (cost : ℕ) : Prop where
  suffix : b.bytes <:+ b'.bytes
  bounded : b'.offset ≤ b.offset + cost
  minalign : b.minalign ≤ b'.minalign

theorem Extends.trans {b b' b'' : FlatBufferBuilder} {cost cost' : ℕ} (h : Extends b b' cost)
    (h' : Extends b' b'' cost') : Extends b b'' (cost + cost') := by
  refine ⟨h.suffix.trans h'.suffix, ?_, h.minalign.trans h'.minalign⟩
  have hbounded := h.bounded
  have hbounded' := h'.bounded
  omega

theorem Extends.offset_le {b b' : FlatBufferBuilder} {cost : ℕ} (h : Extends b b' cost) :
    b.offset ≤ b'.offset := h.suffix.length_le

/-! ### Strings and vectors -/

/-- A string: its length, its bytes and a zero. -/
def StringAt (c : List UInt8) (off : ℕ) (s : List UInt8) : Prop :=
  Holds c off (toBytes 4 s.length ++ (s ++ [0]))

/-- A vector of offsets. -/
structure OffsetsAt (c : List UInt8) (off : ℕ) (refs : List ℕ) : Prop where
  length : Holds c off (toBytes 4 refs.length)
  get : ∀ (j r : ℕ), refs[j]? = some r →
    Holds c (off - 4 - 4 * j) (toBytes 4 ((off - 4 - 4 * j : ℕ) - r))

section Vectors
variable {b : FlatBufferBuilder}

theorem isSize_one : IsSize 1 := .inl rfl
theorem isSize_two : IsSize 2 := .inr (.inl rfl)
theorem isSize_four : IsSize 4 := .inr (.inr (.inl rfl))

/-- The two alignments of a vector with elements of one or four bytes. -/
theorem startVector_spec (hidle : b.nested = false) (elemSize numElems : ℕ) {alignment : ℕ}
    (halign : alignment = 1 ∨ alignment = 4)
    (hroom : b.offset + (elemSize * numElems + 12) ≤ maxSize) :
    ∃ b₁ k, b.startVector elemSize numElems alignment = .ok { b₁ with nested := true } ∧
      Writes { b with vectorNumElems := numElems } b₁ (List.replicate k 0) ∧ k < 4 ∧
      (b₁.offset + elemSize * numElems) % 4 = 0 ∧
      b₁.offset + elemSize * numElems + 4 ≤ b₁.capacity := by
  obtain ⟨b₁, k₁, hprep₁, hwrites₁, hk₁, hmod₁, hfits₁, -⟩ := prep_spec
    (b := { b with vectorNumElems := numElems }) isSize_four (elemSize * numElems) (by
      show b.offset + _ ≤ maxSize
      omega)
  have hoffset₁ : b₁.offset = k₁ + b.offset := by
    rw [hwrites₁.offset, List.length_replicate]
    rfl
  have hsize : IsSize alignment := by
    rcases halign with rfl | rfl
    · exact isSize_one
    · exact isSize_four
  obtain ⟨b₂, k₂, hprep₂, hwrites₂, hk₂, hmod₂, hfits₂, -⟩ := prep_spec
    (b := b₁) hsize (elemSize * numElems) (by
      rcases halign with rfl | rfl <;> omega)
  have hoffset₂ : b₂.offset = k₂ + b₁.offset := by
    rw [hwrites₂.offset, List.length_replicate]
  have hnone : k₂ = 0 := by
    rcases halign with rfl | rfl <;> omega
  subst hnone
  have hgrown := hwrites₂.grown.1
  refine ⟨b₂, k₁, ?_, hwrites₁.trans hwrites₂, hk₁, by omega, by omega⟩
  have hnested : b.notNested = .ok () := if_neg (by simp [hidle])
  exact (ok_bind hnested).trans ((ok_bind hprep₁).trans (ok_bind hprep₂))

theorem endVector_eq {b' : FlatBufferBuilder} (hnested : b.nested = true)
    (hput : { b with nested := false }.put (toBytes 4 b.vectorNumElems) = .ok b') :
    b.endVector = .ok (b'.offset, b') := by
  rw [endVector, hnested]
  exact ok_bind hput

/-- The buffer after an object that left the vtables alone. -/
theorem Ready.of_suffix {b' : FlatBufferBuilder} (hready : Ready b) (hidle : b'.nested = false)
    (hdefaults : b'.forceDefaults = b.forceDefaults) (hvtables : b'.vtables = b.vtables)
    (haligned : IsSize b'.minalign) (hfits : b'.offset ≤ b'.capacity)
    (hsuffix : b.bytes <:+ b'.bytes) : Ready b' := by
  refine ⟨hidle, hdefaults.trans hready.defaults, haligned, hfits, fun vt hvt => ?_⟩
  rw [hvtables] at hvt
  obtain ⟨shorts, hshorts⟩ := hready.shared vt hvt
  exact ⟨shorts, hshorts.mono hsuffix⟩

/-- CORRECT: a string is written with its length. -/
theorem createString_spec (hready : Ready b) (s : List UInt8)
    (hroom : b.offset + (s.length + 16) ≤ maxSize) :
    ∃ off b', b.createString s = .ok (off, b') ∧ Ready b' ∧ Extends b b' (s.length + 16) ∧
      b.offset < off ∧ off ≤ b'.offset ∧ StringAt b'.bytes off s := by
  obtain ⟨b₁, k₁, hnull, hwrites₁, hk₁, -, -⟩ := addNumber_spec (b := b) isSize_one 0 (by omega)
  obtain rfl : k₁ = 0 := by omega
  have hoffset₁ := hwrites₁.offset
  rw [List.length_append, length_toBytes, List.length_replicate] at hoffset₁
  obtain ⟨-, hidle₁, -, -, -, -⟩ := hwrites₁.same
  obtain ⟨b₂, k₂, hstart, hwrites₂, hk₂, -, hfits₂⟩ := startVector_spec (b := b₁)
    (hidle₁.trans hready.idle) 1 s.length (.inl rfl) (by omega)
  have hoffset₂ : b₂.offset = k₂ + b₁.offset := by
    rw [hwrites₂.offset, List.length_replicate]
    rfl
  obtain ⟨b₃, hput, hwrites₃⟩ := put_spec (b := { b₂ with nested := true }) s (by
    show b₂.offset + _ ≤ (b₂.capacity : ℕ)
    omega)
  have hoffset₃ : b₃.offset = s.length + b₂.offset := hwrites₃.offset
  obtain ⟨-, hnested₃, -, -, helems₃, -⟩ := hwrites₃.same
  obtain ⟨-, -, -, -, helems₂, -⟩ := hwrites₂.same
  have hgrown₃ : (b₂.capacity : ℕ) ≤ b₃.capacity := hwrites₃.grown.1
  obtain ⟨b₄, hlength, hwrites₄⟩ := put_spec (b := { b₃ with nested := false })
    (toBytes 4 s.length) (by
      rw [length_toBytes]
      show b₃.offset + 4 ≤ (b₃.capacity : ℕ)
      omega)
  have hoffset₄ : b₄.offset = 4 + b₃.offset := by
    rw [hwrites₄.offset, length_toBytes]
    rfl
  have hsuffix : b.bytes <:+ b₄.bytes :=
    ((hwrites₁.suffix.trans hwrites₂.suffix).trans hwrites₃.suffix).trans hwrites₄.suffix
  have hminalign : b.minalign ≤ b₄.minalign :=
    ((hwrites₁.grown.2.2.1.trans hwrites₂.grown.2.2.1).trans hwrites₃.grown.2.2.1).trans
      hwrites₄.grown.2.2.1
  refine ⟨b₄.offset, b₄, ?_, ?_, ⟨hsuffix, by omega, hminalign⟩, by omega, le_rfl, ?_⟩
  · have hnested : b₃.nested = true := hnested₃
    have helems : b₃.vectorNumElems = s.length := helems₃.trans helems₂
    rw [← helems] at hlength
    have hend := endVector_eq hnested hlength
    exact (ok_bind hnull).trans ((ok_bind hstart).trans ((ok_bind hput).trans hend))
  · obtain ⟨-, hnested₄, -, hvtables₄, -, hdefaults₄⟩ := hwrites₄.same
    obtain ⟨-, -, -, hvtables₃, -, hdefaults₃⟩ := hwrites₃.same
    obtain ⟨-, -, -, hvtables₂, -, hdefaults₂⟩ := hwrites₂.same
    obtain ⟨-, -, -, hvtables₁, -, hdefaults₁⟩ := hwrites₁.same
    refine hready.of_suffix hnested₄ ?_ ?_ ?_ hwrites₄.grown.2.1 hsuffix
    · exact hdefaults₄.trans (hdefaults₃.trans (hdefaults₂.trans hdefaults₁))
    · exact hvtables₄.trans (hvtables₃.trans (hvtables₂.trans hvtables₁))
    · exact hwrites₄.grown.2.2.2 (hwrites₃.grown.2.2.2 (hwrites₂.grown.2.2.2
        (hwrites₁.grown.2.2.2 hready.aligned)))
  · have hzeros : ∃ rest, List.replicate k₂ (0 : UInt8) ++ (toBytes 1 0 ++ b.bytes) =
        [0] ++ rest := by
      cases k₂ with
      | zero => exact ⟨b.bytes, rfl⟩
      | succ k => exact ⟨List.replicate k 0 ++ (toBytes 1 0 ++ b.bytes), rfl⟩
    obtain ⟨rest, hrest⟩ := hzeros
    have hbytes : b₄.bytes = (toBytes 4 s.length ++ (s ++ [0])) ++ rest := by
      rw [hwrites₄.bytes]
      show _ ++ b₃.bytes = _
      rw [hwrites₃.bytes]
      show _ ++ (_ ++ b₂.bytes) = _
      rw [hwrites₂.bytes]
      show _ ++ (_ ++ (_ ++ b₁.bytes)) = _
      rw [hwrites₁.bytes, List.replicate_zero, List.append_nil, hrest]
      simp
    rw [StringAt, FlatBufferBuilder.offset, hbytes]
    exact holds_push _ _

/-- Padding is left out where the buffer is aligned already. -/
theorem addOffset_aligned (off : ℕ) (hoff : off ≤ b.offset) (hroom : b.offset + 8 ≤ maxSize)
    (haligned : b.offset % 4 = 0) :
    ∃ b', b.addOffset off = .ok b' ∧ Writes b b' (toBytes 4 (b'.offset - off)) ∧
      b'.offset = 4 + b.offset := by
  obtain ⟨b', k, hadd, hwrites, hk, hdvd, -⟩ := addOffset_spec off hoff hroom
  have hoffset := hwrites.offset
  rw [List.length_append, length_toBytes, List.length_replicate] at hoffset
  obtain rfl : k = 0 := by omega
  rw [List.replicate_zero, List.append_nil] at hwrites
  exact ⟨b', hadd, hwrites, by omega⟩

/-- The offsets of a vector, the last one first. -/
theorem addOffsets_spec (data : List ℕ) (hdata : ∀ off ∈ data, off ≤ b.offset)
    (hfits : b.offset ≤ b.capacity) (haligned : b.offset % 4 = 0)
    (hroom : b.offset + (4 * data.length + 8) ≤ maxSize) :
    ∃ b' bs, data.reverse.foldlM addOffset b = .ok b' ∧ Writes b b' bs ∧
      bs.length = 4 * data.length ∧
      ∀ j r, data[j]? = some r →
        Holds b'.bytes (b'.offset - 4 * j) (toBytes 4 ((b'.offset - 4 * j : ℕ) - r)) := by
  induction data with
  | nil =>
    exact ⟨b, [], rfl, ⟨b.capacity, b.minalign, le_rfl, hfits, le_rfl, id, rfl⟩, rfl, by simp⟩
  | cons off data ih =>
    obtain ⟨hoff, hdata⟩ := List.forall_mem_cons.mp hdata
    rw [List.length_cons] at hroom
    obtain ⟨b₁, bs, hfold, hwrites, hlength, hget⟩ := ih hdata (by omega)
    have hoffset := hwrites.offset
    obtain ⟨b₂, hadd, hwrites', hoffset'⟩ := addOffset_aligned (b := b₁) off
      (by omega) (by omega) (by omega)
    refine ⟨b₂, _, ?_, hwrites.trans hwrites', ?_, fun j r hj => ?_⟩
    · rw [List.reverse_cons, List.foldlM_append]
      exact (ok_bind hfold).trans ((ok_bind hadd).trans rfl)
    · rw [List.length_append, length_toBytes, hlength, List.length_cons]
      omega
    · cases j with
      | zero =>
        obtain rfl : off = r := by simpa using hj
        simpa using hwrites'.holds
      | succ j =>
        have hrest := (hget j r (by simpa using hj)).mono hwrites'.suffix
        have hshift : b₁.offset - 4 * j = b₂.offset - 4 * (j + 1) := by omega
        rwa [hshift] at hrest

/-- CORRECT: a vector of offsets is written with its length. -/
theorem createOffsetVector_spec (hready : Ready b) (data : List ℕ)
    (hdata : ∀ off ∈ data, off ≤ b.offset)
    (hroom : b.offset + (4 * data.length + 24) ≤ maxSize) :
    ∃ off b', b.createOffsetVector data = .ok (off, b') ∧ Ready b' ∧
      Extends b b' (4 * data.length + 24) ∧ b.offset < off ∧ off ≤ b'.offset ∧
      OffsetsAt b'.bytes off data := by
  obtain ⟨b₁, k, hstart, hwrites₁, hk, hmod, hfits⟩ := startVector_spec (b := b)
    hready.idle 4 data.length (.inr rfl) (by omega)
  have hoffset₁ : b₁.offset = k + b.offset := by
    rw [hwrites₁.offset, List.length_replicate]
    rfl
  obtain ⟨b₂, bs, hfold, hwrites₂, hlength₂, hget⟩ := addOffsets_spec
    (b := { b₁ with nested := true }) data
    (fun off hoff => by
      have hle := hdata off hoff
      show off ≤ b₁.offset
      omega)
    (by
      show b₁.offset ≤ (b₁.capacity : ℕ)
      omega)
    (by
      show b₁.offset % 4 = 0
      omega)
    (by
      show b₁.offset + _ ≤ maxSize
      omega)
  have hoffset₂ : b₂.offset = 4 * data.length + b₁.offset := by
    rw [hwrites₂.offset, hlength₂]
    rfl
  obtain ⟨-, hnested₂, -, hvtables₂, helems₂, hdefaults₂⟩ := hwrites₂.same
  obtain ⟨-, -, -, hvtables₁, helems₁, hdefaults₁⟩ := hwrites₁.same
  have hgrown₂ : (b₁.capacity : ℕ) ≤ b₂.capacity := hwrites₂.grown.1
  obtain ⟨b₃, hlength, hwrites₃⟩ := put_spec (b := { b₂ with nested := false })
    (toBytes 4 data.length) (by
      rw [length_toBytes]
      show b₂.offset + 4 ≤ (b₂.capacity : ℕ)
      omega)
  have hoffset₃ : b₃.offset = 4 + b₂.offset := by
    rw [hwrites₃.offset, length_toBytes]
    rfl
  obtain ⟨-, hnested₃, -, hvtables₃, -, hdefaults₃⟩ := hwrites₃.same
  have hsuffix : b.bytes <:+ b₃.bytes :=
    (hwrites₁.suffix.trans hwrites₂.suffix).trans hwrites₃.suffix
  have hminalign : b.minalign ≤ b₃.minalign :=
    (hwrites₁.grown.2.2.1.trans hwrites₂.grown.2.2.1).trans hwrites₃.grown.2.2.1
  refine ⟨b₃.offset, b₃, ?_, ?_, ⟨hsuffix, by omega, hminalign⟩, by omega, le_rfl,
    hwrites₃.holds, fun j r hj => ?_⟩
  · have hnested : b₂.nested = true := hnested₂
    have helems : b₂.vectorNumElems = data.length := helems₂.trans helems₁
    rw [← helems] at hlength
    exact (ok_bind hstart).trans ((ok_bind hfold).trans (endVector_eq hnested hlength))
  · refine hready.of_suffix hnested₃ ?_ ?_ ?_ hwrites₃.grown.2.1 hsuffix
    · exact hdefaults₃.trans (hdefaults₂.trans hdefaults₁)
    · exact hvtables₃.trans (hvtables₂.trans hvtables₁)
    · exact hwrites₃.grown.2.2.2 (hwrites₂.grown.2.2.2 (hwrites₁.grown.2.2.2 hready.aligned))
  · have hold := (hget j r hj).mono (show b₂.bytes <:+ b₃.bytes from hwrites₃.suffix)
    have hshift : b₂.offset - 4 * j = b₃.offset - 4 - 4 * j := by omega
    rwa [hshift] at hold

end Vectors

end Motis.Android.FlatBufferBuilder
