import Motis.Android.FlatBufferTables

/-! `Table`: what is read from a message.

    A table is a position in a buffer. A field is looked up in the vtable, and is at the default
    when the vtable ends before it or holds a 0. Reading outside of the buffer throws, here
    `none`. -/

namespace Motis.Android
open ByteStack FlatBufferBuilder

/-- A table or struct: the generated classes are views of it. -/
structure Table where
  bb : List UInt8
  bbPos : ℤ
  deriving DecidableEq

/-- `get`, `getShort`, `getInt` and `getLong` of `ByteBuffer`. -/
def getNumber (bb : List UInt8) (pos : ℤ) (size : ℕ) : Option ℤ := (bytesAt bb pos size).map ofBytes

namespace Table

/-- `__offset`. -/
def offset (t : Table) (vtableOffset : ℤ) : Option ℤ := do
  let vtable := t.bbPos - (← getNumber t.bb t.bbPos 4)
  if vtableOffset < (← getNumber t.bb vtable 2) then getNumber t.bb (vtable + vtableOffset) 2
  else some 0

/-- `__indirect`. -/
def indirect (t : Table) (offset : ℤ) : Option ℤ := do
  return offset + (← getNumber t.bb offset 4)

/-- `__string`, before it is decoded. -/
def string (t : Table) (offset : ℤ) : Option (List UInt8) := do
  let offset := offset + (← getNumber t.bb offset 4)
  let length ← getNumber t.bb offset 4
  if length < 0 then none else bytesAt t.bb (offset + 4) length.toNat

/-- `__vector_len`. -/
def vectorLen (t : Table) (offset : ℤ) : Option ℤ := do
  let offset := offset + t.bbPos
  let offset := offset + (← getNumber t.bb offset 4)
  getNumber t.bb offset 4

/-- `__vector`: data starts after the length. -/
def vector (t : Table) (offset : ℤ) : Option ℤ := do
  let offset := offset + t.bbPos
  return offset + (← getNumber t.bb offset 4) + 4

/-- `__union`. -/
def union (t : Table) (offset : ℤ) : Option Table := do
  let offset := offset + t.bbPos
  return ⟨t.bb, offset + (← getNumber t.bb offset 4)⟩

/-! ### Generated accessors -/

/-- A number, or its default. -/
def numberField (t : Table) (vtableOffset : ℤ) (size : ℕ) (d : ℤ) : Option ℤ := do
  let o ← t.offset vtableOffset
  if o ≠ 0 then getNumber t.bb (o + t.bbPos) size else some d

/-- A table, or `null`. -/
def tableField (t : Table) (vtableOffset : ℤ) : Option (Option Table) := do
  let o ← t.offset vtableOffset
  if o ≠ 0 then return some ⟨t.bb, ← t.indirect (o + t.bbPos)⟩ else return none

/-- A member of a union, or `null`. -/
def unionField (t : Table) (vtableOffset : ℤ) : Option (Option Table) := do
  let o ← t.offset vtableOffset
  if o ≠ 0 then return some (← t.union o) else return none

/-- A string, or `null`. -/
def stringField (t : Table) (vtableOffset : ℤ) : Option (Option (List UInt8)) := do
  let o ← t.offset vtableOffset
  if o ≠ 0 then return some (← t.string (o + t.bbPos)) else return none

/-- A struct, or `null`. -/
def structField (t : Table) (vtableOffset : ℤ) : Option (Option Table) := do
  let o ← t.offset vtableOffset
  if o ≠ 0 then return some ⟨t.bb, o + t.bbPos⟩ else return none

def vectorLength (t : Table) (vtableOffset : ℤ) : Option ℤ := do
  let o ← t.offset vtableOffset
  if o ≠ 0 then t.vectorLen o else return 0

/-- The table an element of a vector of tables refers to. -/
def vectorElement (t : Table) (vtableOffset j : ℤ) : Option (Option Table) := do
  let o ← t.offset vtableOffset
  if o ≠ 0 then return some ⟨t.bb, ← t.indirect ((← t.vector o) + j * 4)⟩ else return none

end Table

/-! ### Reading what was written -/

section Read
variable {c : List UInt8} {off numfields o : ℕ} {fields : List (ℕ × Field)} {slots : List ℕ}

/-- The table that lies at an offset from the end. -/
def tableAt (c : List UInt8) (off : ℕ) : Table := ⟨c, c.length - off⟩

theorem getNumber_of_holds {n : ℕ} {x pos : ℤ} (h : Holds c off (toBytes n x)) (hx : InRange n x)
    (hpos : pos = c.length - off) : getNumber c pos n = some x := by
  have hbytes := h.bytesAt
  rw [length_toBytes] at hbytes
  rw [getNumber, hpos, hbytes, Option.map_some, ofBytes_toBytes hx]

/-- Distances in a buffer fit into an `int`. -/
theorem inRange_distance (hsize : c.length ≤ maxSize) {a b : ℕ} (ha : a ≤ c.length)
    (hb : b ≤ c.length) : InRange 4 ((a : ℤ) - b) := by
  rw [maxSize] at hsize
  constructor <;> norm_num <;> omega

theorem getShort_of_vtable {vt i : ℕ} {shorts : List ℤ} {x pos : ℤ} (h : VtableAt c vt shorts)
    (hi : shorts[i]? = some x) (hpos : pos = c.length - vt + 2 * i) :
    getNumber c pos 2 = some x := by
  have hle := h.holds.length_le
  have hlt : i < shorts.length := (List.getElem?_eq_some_iff.mp hi).1
  rw [length_flatMap_toBytes] at hle
  exact getNumber_of_holds (h.holds.get hi) (h.inRange x (List.mem_of_getElem? hi)) (by omega)

/-- The slots of a table are read from its vtable. -/
theorem offset_of_table (h : TableAt c off slots) (hsize : c.length ≤ maxSize) {s : ℕ}
    (hs : slots[o]? = some s) :
    (tableAt c off).offset (4 + 2 * o) = some (if s ≠ 0 then (off : ℤ) - s else 0) := by
  obtain ⟨vt, size, hholds, hvt⟩ := h.vtable
  have hoff := hholds.length_le.2
  have hvtle := hvt.holds.length_le.2
  have hlt : o < slots.length := (List.getElem?_eq_some_iff.mp hs).1
  have hsoffset : getNumber c (c.length - off) 4 = some ((vt : ℤ) - off) :=
    getNumber_of_holds hholds (inRange_distance hsize hvtle hoff) rfl
  have hlength : getNumber c (c.length - vt) 2 = some (((slots.length : ℤ) + 2) * 2) :=
    getShort_of_vtable (i := 0) hvt rfl (by simp)
  have hentry : getNumber c (c.length - vt + (4 + 2 * o)) 2 =
      some (if s ≠ 0 then (off : ℤ) - s else 0) := by
    refine getShort_of_vtable (i := o + 2) hvt ?_ (by push_cast; ring)
    rw [shortsOf, List.getElem?_cons_succ, List.getElem?_cons_succ, List.getElem?_map, hs]
    rfl
  have hvtable : (c.length : ℤ) - off - ((vt : ℤ) - off) = c.length - vt := by ring
  simp only [Table.offset, tableAt, hsoffset, Option.bind_eq_bind, Option.bind_some, hvtable,
    hlength]
  rw [if_pos (by omega), hentry]

/-- A field that was left out. -/
theorem offset_of_zero (h : TableAt c off slots) (hsize : c.length ≤ maxSize)
    (hs : slots[o]? = some 0) : (tableAt c off).offset (4 + 2 * o) = some 0 := by
  rw [offset_of_table h hsize hs]
  rfl

/-- A field the writer does not know. -/
theorem offset_beyond (h : TableAt c off slots) (hsize : c.length ≤ maxSize)
    (ho : slots.length ≤ o) : (tableAt c off).offset (4 + 2 * o) = some 0 := by
  obtain ⟨vt, size, hholds, hvt⟩ := h.vtable
  have hsoffset : getNumber c (c.length - off) 4 = some ((vt : ℤ) - off) :=
    getNumber_of_holds hholds
      (inRange_distance hsize hvt.holds.length_le.2 hholds.length_le.2) rfl
  have hlength : getNumber c (c.length - vt) 2 = some (((slots.length : ℤ) + 2) * 2) :=
    getShort_of_vtable (i := 0) hvt rfl (by simp)
  have hvtable : (c.length : ℤ) - off - ((vt : ℤ) - off) = c.length - vt := by ring
  simp only [Table.offset, tableAt, hsoffset, Option.bind_eq_bind, Option.bind_some, hvtable,
    hlength]
  rw [if_neg (by omega)]

/-- Where a written field is: its slot gives the distance from the table. -/
theorem offset_of_written (h : TableWith c off numfields fields slots) (hsize : c.length ≤ maxSize)
    {s : ℕ} (hs : slots[o]? = some s) (hzero : s ≠ 0) :
    ∃ k, (tableAt c off).offset (4 + 2 * o) = some k ∧ k ≠ 0 ∧
      k + (c.length - off) = c.length - s := by
  have hlt := h.below s (List.mem_of_getElem? hs)
  refine ⟨(off : ℤ) - s, ?_, by omega, by ring⟩
  rw [offset_of_table h.table hsize hs, if_pos hzero]

/-- CORRECT: a number is read as it was added. -/
theorem numberField_of_table (h : TableWith c off numfields fields slots)
    (hsize : c.length ≤ maxSize) {size : ℕ} {x d : ℤ} (hf : (o, .number size x d) ∈ fields)
    (hx : InRange size x) : (tableAt c off).numberField (4 + 2 * o) size d = some x := by
  obtain ⟨s, hs, hwritten⟩ := h.written _ hf
  rw [Written] at hwritten
  split_ifs at hwritten with hdefault
  · subst hwritten
    simp [Table.numberField, offset_of_zero h.table hsize hs, hdefault]
  · obtain ⟨hzero, -, hholds⟩ := hwritten
    obtain ⟨k, hk, hne, hpos⟩ := offset_of_written h hsize hs hzero
    have hread : getNumber c (k + (c.length - off)) size = some x :=
      getNumber_of_holds hholds hx hpos
    simp only [Table.numberField, hk, Option.bind_eq_bind, Option.bind_some, if_pos hne]
    exact hread

/-- The position an added offset refers to. -/
theorem indirect_of_written {off' s : ℕ} (pos : ℤ) (hsize : c.length ≤ maxSize)
    (hholds : Holds c s (toBytes 4 ((s : ℤ) - off'))) (hoff' : off' ≤ c.length)
    (hpos : pos = c.length - s) :
    ∃ x, getNumber c pos 4 = some x ∧ pos + x = c.length - off' := by
  refine ⟨(s : ℤ) - off', ?_, by rw [hpos]; ring⟩
  exact getNumber_of_holds hholds (inRange_distance hsize hholds.length_le.2 hoff') hpos

/-- An added offset, where it is and what it refers to. -/
theorem offsetField_of_table (h : TableWith c off numfields fields slots)
    (hsize : c.length ≤ maxSize) {off' : ℕ} (hf : (o, .offset off') ∈ fields) (hne : off' ≠ 0)
    (hoff' : off' ≤ c.length) :
    ∃ k x, (tableAt c off).offset (4 + 2 * o) = some k ∧ k ≠ 0 ∧
      getNumber c (k + (c.length - off)) 4 = some x ∧
      k + (c.length - off) + x = c.length - off' := by
  obtain ⟨s, hs, hwritten⟩ := h.written _ hf
  rw [Written, if_neg hne] at hwritten
  obtain ⟨hzero, -, hholds⟩ := hwritten
  obtain ⟨k, hk, hkne, hpos⟩ := offset_of_written h hsize hs hzero
  obtain ⟨x, hx, hsum⟩ := indirect_of_written _ hsize hholds hoff' hpos
  exact ⟨k, x, hk, hkne, hx, hsum⟩

/-- CORRECT: a table is read as the one it was added as. -/
theorem tableField_of_table (h : TableWith c off numfields fields slots)
    (hsize : c.length ≤ maxSize) {off' : ℕ} (hf : (o, .offset off') ∈ fields) (hne : off' ≠ 0)
    (hoff' : off' ≤ c.length) :
    (tableAt c off).tableField (4 + 2 * o) = some (some (tableAt c off')) := by
  obtain ⟨k, x, hk, hkne, hx, hsum⟩ := offsetField_of_table h hsize hf hne hoff'
  simp only [Table.tableField, hk, Option.bind_eq_bind, Option.bind_some, if_pos hkne,
    Table.indirect]
  simp only [tableAt, hx, Option.bind_some, hsum, pure]

theorem unionField_of_table (h : TableWith c off numfields fields slots)
    (hsize : c.length ≤ maxSize) {off' : ℕ} (hf : (o, .offset off') ∈ fields) (hne : off' ≠ 0)
    (hoff' : off' ≤ c.length) :
    (tableAt c off).unionField (4 + 2 * o) = some (some (tableAt c off')) := by
  obtain ⟨k, x, hk, hkne, hx, hsum⟩ := offsetField_of_table h hsize hf hne hoff'
  simp only [Table.unionField, hk, Option.bind_eq_bind, Option.bind_some, if_pos hkne, Table.union]
  simp only [tableAt, hx, Option.bind_some, hsum, pure]

/-- CORRECT: a string is read as it was created. -/
theorem stringField_of_table (h : TableWith c off numfields fields slots)
    (hsize : c.length ≤ maxSize) {off' : ℕ} {s : List UInt8} (hf : (o, .offset off') ∈ fields)
    (hs : StringAt c off' s) : (tableAt c off).stringField (4 + 2 * o) = some (some s) := by
  have hle := hs.length_le
  simp only [List.length_append, length_toBytes, List.length_singleton] at hle
  obtain ⟨k, x, hk, hkne, hx, hsum⟩ := offsetField_of_table h hsize hf (by omega) hle.2
  have hlength : getNumber c (c.length - off') 4 = some (s.length : ℤ) := by
    refine getNumber_of_holds hs.left ?_ rfl
    rw [maxSize] at hsize
    constructor <;> norm_num <;> omega
  have hbytes : bytesAt c (c.length - off' + 4) s.length = some s := by
    have hpart := hs.part.bytesAt
    rw [length_toBytes] at hpart
    rw [← hpart]
    congr 1
    omega
  have hnonneg : ¬ (s.length : ℤ) < 0 := by omega
  simp only [Table.stringField, hk, Option.bind_eq_bind, Option.bind_some, if_pos hkne,
    Table.string]
  simp only [tableAt, hx, Option.bind_some, hsum, hlength, if_neg hnonneg, Int.toNat_natCast,
    hbytes, pure]

/-- CORRECT: the members of a struct are read as they were added. -/
theorem structField_of_table (h : TableWith c off numfields fields slots)
    (hsize : c.length ≤ maxSize) {size : ℕ} {members : List ℤ}
    (hf : (o, .struct size members) ∈ fields) :
    ∃ t, (tableAt c off).structField (4 + 2 * o) = some (some t) ∧ t.bb = c ∧
      ∀ (j : ℕ) (x : ℤ), members[j]? = some x → InRange size x →
        getNumber c (t.bbPos + size * j) size = some x := by
  obtain ⟨s, hs, hzero, -, hholds⟩ := h.written _ hf
  obtain ⟨k, hk, hkne, hpos⟩ := offset_of_written h hsize hs hzero
  refine ⟨⟨c, k + (c.length - off)⟩, ?_, rfl, fun j x hj hx => ?_⟩
  · simp only [Table.structField, hk, Option.bind_eq_bind, Option.bind_some, if_pos hkne]
    rfl
  · have hlt : j < members.length := (List.getElem?_eq_some_iff.mp hj).1
    have hle := hholds.length_le
    rw [length_flatMap_toBytes] at hle
    have hmul : size * j ≤ size * members.length := Nat.mul_le_mul_left size hlt.le
    refine getNumber_of_holds (hholds.get hj) hx ?_
    rw [hpos]
    push_cast [Nat.cast_sub (hmul.trans hle.1)]
    ring

/-- CORRECT: a vector of tables is read element by element. -/
theorem vectorElement_of_table (h : TableWith c off numfields fields slots)
    (hsize : c.length ≤ maxSize) {off' : ℕ} {refs : List ℕ} (hf : (o, .offset off') ∈ fields)
    (hrefs : OffsetsAt c off' refs) :
    (tableAt c off).vectorLength (4 + 2 * o) = some (refs.length : ℤ) ∧
      ∀ (j r : ℕ), refs[j]? = some r → r ≤ c.length →
        (tableAt c off).vectorElement (4 + 2 * o) j = some (some (tableAt c r)) := by
  have hle := hrefs.length.length_le
  rw [length_toBytes] at hle
  obtain ⟨k, x, hk, hkne, hx, hsum⟩ := offsetField_of_table h hsize hf (by omega) hle.2
  constructor
  · have hcount : refs.length ≤ c.length := by
      rcases Nat.eq_zero_or_pos refs.length with hnone | hpos
      · omega
      · have hlast := (hrefs.get (refs.length - 1) _
          (List.getElem?_eq_getElem (by omega))).length_le
        rw [length_toBytes] at hlast
        omega
    have hlength : getNumber c (c.length - off') 4 = some (refs.length : ℤ) := by
      refine getNumber_of_holds hrefs.length ?_ rfl
      rw [maxSize] at hsize
      constructor <;> norm_num <;> omega
    simp only [Table.vectorLength, hk, Option.bind_eq_bind, Option.bind_some, if_pos hkne,
      Table.vectorLen]
    simp only [tableAt, hx, Option.bind_some, hsum, hlength]
  · intro j r hj hr
    have hholds := hrefs.get j r hj
    have hholdsLe := hholds.length_le
    rw [length_toBytes] at hholdsLe
    obtain ⟨y, hy, hindirect⟩ := indirect_of_written (c.length - off' + 4 + j * 4) hsize
      hholds hr (by omega)
    simp only [Table.vectorElement, hk, Option.bind_eq_bind, Option.bind_some, if_pos hkne,
      Table.vector, Table.indirect]
    simp only [tableAt, hx, Option.bind_some, hsum, hy, hindirect, pure]

end Read

end Motis.Android
