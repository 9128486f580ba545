import Motis.Android.FlatBufferObjects

/-! What tables look like in the buffer.

    The fields of a table are written one after the other; the vtable says how far each of them is
    from the table. A vtable that was written before is taken again when it holds the same numbers,
    so that both ways to end a table are read alike. -/

namespace Motis.Android.FlatBufferBuilder
open ByteStack Fallible

/-! ### Fields -/

/-- The number of bytes a field takes at most. -/
def Field.cost : Field → ℕ
  | number size _ _ => 2 * size
  | offset _ => 8
  | struct size members => 2 * size + size * members.length

/-- The field can be added when objects were written up to `base`. -/
def Field.Allowed (base : ℕ) : Field → Prop
  | number size _ _ => IsSize size
  | offset off => off ≤ base
  | struct size members => IsSize size ∧ members ≠ []

/-- What a field is aligned to. -/
def Field.size : Field → ℕ
  | number size _ _ => size
  | offset _ => 4
  | struct size _ => size

/-- The field is not left out. -/
def Field.Present : Field → Prop
  | number _ x d => x ≠ d
  | offset off => off ≠ 0
  | struct _ _ => True

/-- A field in the buffer: it is left out, at slot entry 0, or aligned and written. -/
def Written (c : List UInt8) (s : ℕ) : Field → Prop
  | .number size x d => if x = d then s = 0 else s ≠ 0 ∧ size ∣ s ∧ Holds c s (toBytes size x)
  | .offset off => if off = 0 then s = 0 else s ≠ 0 ∧ 4 ∣ s ∧ Holds c s (toBytes 4 (s - off))
  | .struct size members => s ≠ 0 ∧ size ∣ s ∧ Holds c s (members.flatMap (toBytes size))

theorem Written.mono {c c' : List UInt8} {s : ℕ} {f : Field} (h : Written c s f)
    (hsuffix : c <:+ c') : Written c' s f := by
  cases f with
  | number size x d =>
    simp only [Written] at h ⊢
    split_ifs at h ⊢
    · exact h
    · exact ⟨h.1, h.2.1, h.2.2.mono hsuffix⟩
  | offset off =>
    simp only [Written] at h ⊢
    split_ifs at h ⊢
    · exact h
    · exact ⟨h.1, h.2.1, h.2.2.mono hsuffix⟩
  | struct size members => exact ⟨h.1, h.2.1, h.2.2.mono hsuffix⟩

section Fields
variable {b : FlatBufferBuilder}

/-- The members of a struct, the last one first. -/
theorem putMembers_spec (size : ℕ) (members : List ℤ)
    (hfits : b.offset + size * members.length ≤ b.capacity) :
    ∃ b', members.reverse.foldlM (putNumber · size ·) b = .ok b' ∧
      Writes b b' (members.flatMap (toBytes size)) ∧ b'.capacity = b.capacity := by
  induction members with
  | nil => exact ⟨b, rfl, ⟨b.capacity, b.minalign, le_rfl, hfits, le_rfl, id, rfl⟩, rfl⟩
  | cons x members ih =>
    rw [List.length_cons, Nat.mul_succ] at hfits
    obtain ⟨b₁, hfold, hwrites, hcapacity⟩ := ih (by omega)
    have hoffset := hwrites.offset
    rw [length_flatMap_toBytes] at hoffset
    have hput : b₁.put (toBytes size x) = .ok { b₁ with bytes := toBytes size x ++ b₁.bytes } := by
      refine put_eq ?_
      rw [length_toBytes, hcapacity]
      rw [FlatBufferBuilder.offset] at hoffset
      omega
    have hwrites' : Writes b₁ { b₁ with bytes := toBytes size x ++ b₁.bytes } (toBytes size x) := by
      refine ⟨b₁.capacity, b₁.minalign, le_rfl, ?_, le_rfl, id, rfl⟩
      rw [List.length_append, length_toBytes, hcapacity]
      rw [FlatBufferBuilder.offset] at hoffset
      omega
    refine ⟨_, ?_, hwrites.trans hwrites', hcapacity⟩
    rw [List.reverse_cons, List.foldlM_append]
    exact (ok_bind hfold).trans ((ok_bind hput).trans rfl)

theorem set_zero {l : List ℕ} {o : ℕ} (ho : l[o]? = some 0) : l.set o 0 = l := by
  obtain ⟨hlt, hget⟩ := List.getElem?_eq_some_iff.mp ho
  conv_lhs => rw [← hget]
  exact List.set_getElem_self hlt

theorem slot_eq {o : ℕ} (ho : o < b.vtable.length) :
    b.slot o = .ok { b with vtable := b.vtable.set o b.offset } := if_pos ho

/-- A field is added to an empty slot. -/
theorem addField_spec {o base : ℕ} {f : Field} (hdefaults : b.forceDefaults = false)
    (hfits : b.offset ≤ b.capacity) (hf : f.Allowed base) (hbase : base ≤ b.offset)
    (ho : b.vtable[o]? = some 0) (hroom : b.offset + f.cost ≤ maxSize) :
    ∃ b₁ bs s, b.addField o f = .ok { b₁ with vtable := b.vtable.set o s } ∧ Writes b b₁ bs ∧
      bs.length ≤ f.cost ∧ (s = 0 ∨ b.offset < s) ∧ s ≤ b₁.offset ∧ Written b₁.bytes s f ∧
      (f.Present → f.size ≤ b₁.minalign) := by
  have hlt : o < b.vtable.length := (List.getElem?_eq_some_iff.mp ho).1
  have hnone : Writes b b [] := ⟨b.capacity, b.minalign, le_rfl, hfits, le_rfl, id, rfl⟩
  cases f with
  | number size x d =>
    rcases eq_or_ne x d with hx | hx
    · refine ⟨b, [], 0, ?_, hnone, Nat.zero_le _, .inl rfl, Nat.zero_le _, ?_, fun h => (h hx).elim⟩
      · rw [set_zero ho, addField, if_neg (by simp [hx, hdefaults])]
      · simp [Written, hx]
    · have hpos := IsSize.pos hf
      obtain ⟨b₁, k, hadd, hwrites, hk, hdvd, hminalign⟩ := addNumber_spec (b := b) hf x hroom
      have hoffset := hwrites.offset
      rw [List.length_append, length_toBytes, List.length_replicate] at hoffset
      have hslot := slot_eq (b := b₁) (o := o) (by rwa [hwrites.same.1])
      rw [hwrites.same.1] at hslot
      refine ⟨b₁, _, b₁.offset, ?_, hwrites, ?_, .inr (by omega), le_rfl, ?_, fun _ => hminalign⟩
      · rw [addField, hdefaults, if_pos (by simpa using hx)]
        exact (ok_bind hadd).trans hslot
      · rw [List.length_append, length_toBytes, List.length_replicate, Field.cost]
        omega
      · rw [Written, if_neg hx]
        exact ⟨by omega, hdvd, hwrites.holds.left⟩
  | offset off =>
    rcases eq_or_ne off 0 with hoff | hoff
    · refine ⟨b, [], 0, ?_, hnone, Nat.zero_le _, .inl rfl, Nat.zero_le _, ?_,
        fun h => (h hoff).elim⟩
      · rw [set_zero ho, addField, if_neg (by simp [hoff, hdefaults])]
      · simp [Written, hoff]
    · have hle : off ≤ base := hf
      obtain ⟨b₁, k, hadd, hwrites, hk, hdvd, hminalign⟩ := addOffset_spec (b := b) off
        (by omega) hroom
      have hoffset := hwrites.offset
      rw [List.length_append, length_toBytes, List.length_replicate] at hoffset
      have hslot := slot_eq (b := b₁) (o := o) (by rwa [hwrites.same.1])
      rw [hwrites.same.1] at hslot
      refine ⟨b₁, _, b₁.offset, ?_, hwrites, ?_, .inr (by omega), le_rfl, ?_, fun _ => hminalign⟩
      · rw [addField, hdefaults, if_pos (by simpa using hoff)]
        exact (ok_bind hadd).trans hslot
      · rw [List.length_append, length_toBytes, List.length_replicate, Field.cost]
        omega
      · rw [Written, if_neg hoff]
        exact ⟨by omega, hdvd, hwrites.holds.left⟩
  | struct size members =>
    obtain ⟨hsize, hmembers⟩ := hf
    have hpos := hsize.pos
    rw [Field.cost] at hroom ⊢
    obtain ⟨b₁, k, hprep, hwrites, hk, hmod, hfits₁, hminalign⟩ := prep_spec (b := b)
      hsize (size * members.length) hroom
    obtain ⟨b₂, hfold, hwrites', -⟩ := putMembers_spec (b := b₁) size members (by omega)
    have hoffset := hwrites.offset
    have hoffset' := hwrites'.offset
    rw [List.length_replicate] at hoffset
    rw [length_flatMap_toBytes] at hoffset'
    have hlength : 0 < size * members.length :=
      Nat.mul_pos hpos (List.length_pos_of_ne_nil hmembers)
    have hvtable : b₂.vtable = b.vtable := hwrites'.same.1.trans hwrites.same.1
    have hslot := slot_eq (b := b₂) (o := o) (by rwa [hvtable])
    rw [hvtable] at hslot
    have hadd : b₂.addStruct o b₂.offset 0 =
        .ok { b₂ with vtable := b.vtable.set o b₂.offset } := by
      rw [addStruct, if_pos (by omega), if_neg (by simp), hslot]
    refine ⟨b₂, _, b₂.offset, ?_, hwrites.trans hwrites', ?_, .inr (by omega), le_rfl,
      ⟨by omega, ?_, hwrites'.holds⟩, fun _ => hminalign.trans hwrites'.grown.2.2.1⟩
    · exact (ok_bind hprep).trans ((ok_bind hfold).trans hadd)
    · rw [List.length_append, length_flatMap_toBytes, List.length_replicate]
      omega
    · rw [hoffset', Nat.add_comm]
      exact Nat.dvd_of_mod_eq_zero hmod

/-- Slots may be set between two writes. -/
theorem Writes.vtable {b₁ b₂ : FlatBufferBuilder} {bs bs' : List UInt8} {vtable : List ℕ}
    (h : Writes b b₁ bs) (h' : Writes { b₁ with vtable := vtable } b₂ bs') :
    Writes b { b₂ with vtable := b₁.vtable } (bs' ++ bs) := by
  obtain ⟨capacity, minalign, hgrown, -, hle, hsize, rfl⟩ := h
  obtain ⟨capacity', minalign', hgrown', hfits, hle', hsize', rfl⟩ := h'
  refine ⟨capacity', minalign', hgrown.trans hgrown', ?_, hle.trans hle',
    fun h => hsize' (hsize h), ?_⟩
  · rwa [List.append_assoc]
  · simp

/-- The fields of a table, each to its own empty slot. -/
theorem addFields_spec (base : ℕ) (fields : List (ℕ × Field)) (hdefaults : b.forceDefaults = false)
    (hfits : b.offset ≤ b.capacity) (hfields : ∀ f ∈ fields, f.2.Allowed base)
    (hbase : base ≤ b.offset) (hdistinct : (fields.map (·.1)).Nodup)
    (hempty : ∀ f ∈ fields, b.vtable[f.1]? = some 0)
    (hroom : b.offset + (fields.map (·.2.cost)).sum ≤ maxSize) :
    ∃ b₁ bs vtable, fields.foldlM (fun b f => b.addField f.1 f.2) b =
        .ok { b₁ with vtable := vtable } ∧
      Writes b b₁ bs ∧ bs.length ≤ (fields.map (·.2.cost)).sum ∧
      vtable.length = b.vtable.length ∧
      (∀ f ∈ fields, ∃ s, vtable[f.1]? = some s ∧ Written b₁.bytes s f.2) ∧
      (∀ o, o ∉ fields.map (·.1) → vtable[o]? = b.vtable[o]?) ∧
      (∀ s ∈ vtable, s ∈ b.vtable ∨ s = 0 ∨ (b.offset < s ∧ s ≤ b₁.offset)) ∧
      ∀ f ∈ fields, f.2.Present → f.2.size ≤ b₁.minalign := by
  induction fields generalizing b with
  | nil =>
    exact ⟨b, [], b.vtable, rfl, ⟨b.capacity, b.minalign, le_rfl, hfits, le_rfl, id, rfl⟩, by simp,
      rfl, by simp, fun _ _ => rfl, fun s hs => .inl hs, by simp⟩
  | cons f fields ih =>
    rw [List.map_cons, List.sum_cons] at hroom
    obtain ⟨hnotMem, hdistinct⟩ := List.nodup_cons.mp hdistinct
    obtain ⟨hf, hfields⟩ := List.forall_mem_cons.mp hfields
    obtain ⟨ho, hempty⟩ := List.forall_mem_cons.mp hempty
    obtain ⟨b₁, bs, s, hadd, hwrites, hlength, hs, hsle, hwritten, hminalign⟩ :=
      addField_spec hdefaults hfits hf hbase ho (by omega)
    have hoffset := hwrites.offset
    obtain ⟨b₂, bs', vtable, hfold, hwrites', hlength', hvtable, hall, hothers, hslots,
      hsizes⟩ := ih
      (b := { b₁ with vtable := b.vtable.set f.1 s })
      (hwrites.same.2.2.2.2.2.trans hdefaults) hwrites.grown.2.1 hfields
      (by
        show base ≤ b₁.offset
        omega) hdistinct
      (fun g hg => by
        have hne : f.1 ≠ g.1 := fun heq => hnotMem (List.mem_map.mpr ⟨g, hg, heq.symm⟩)
        show (b.vtable.set f.1 s)[g.1]? = some 0
        rw [List.getElem?_set_ne hne]
        exact hempty g hg)
      (by
        show b₁.offset + _ ≤ maxSize
        omega)
    have hsuffix : b₁.bytes <:+ b₂.bytes := hwrites'.suffix
    have hoffset' : b₂.offset = bs'.length + b₁.offset := hwrites'.offset
    have hlt : f.1 < b.vtable.length := (List.getElem?_eq_some_iff.mp ho).1
    have hle : b₁.minalign ≤ b₂.minalign := hwrites'.grown.2.2.1
    refine ⟨{ b₂ with vtable := b₁.vtable }, bs' ++ bs, vtable, (ok_bind hadd).trans hfold, ?_, ?_,
      ?_, ?_, ?_, ?_, List.forall_mem_cons.mpr ⟨fun h => (hminalign h).trans hle, hsizes⟩⟩
    · exact hwrites.vtable hwrites'
    · rw [List.length_append, List.map_cons, List.sum_cons]
      omega
    · rw [hvtable]
      exact List.length_set
    · refine List.forall_mem_cons.mpr ⟨⟨s, ?_, hwritten.mono hsuffix⟩, hall⟩
      rw [hothers f.1 hnotMem]
      show (b.vtable.set f.1 s)[f.1]? = some s
      rw [List.getElem?_set_self hlt]
    · intro o hnot
      obtain ⟨hne, hnot⟩ := not_or.mp (mt List.mem_cons.mpr hnot)
      rw [hothers o hnot]
      exact List.getElem?_set_ne (fun heq => hne heq.symm)
    · intro s' hs'
      show _ ∨ _ ∨ (b.offset < s' ∧ s' ≤ b₂.offset)
      rcases hslots s' hs' with hmem | hzero | ⟨hlow, hhigh⟩
      · rcases List.mem_or_eq_of_mem_set hmem with hmem | rfl
        · exact .inl hmem
        · rcases hs with hzero | hlow
          · exact .inr (.inl hzero)
          · exact .inr (.inr ⟨hlow, by omega⟩)
      · exact .inr (.inl hzero)
      · have hlow' : b₁.offset < s' := hlow
        exact .inr (.inr ⟨by omega, hhigh⟩)

end Fields

/-! ### Vtables -/

/-- The numbers of a vtable. -/
def shortsOf (off size : ℕ) (slots : List ℕ) : List ℤ :=
  (slots.length + 2) * 2 :: (size : ℤ) :: slots.map fun s : ℕ => if s ≠ 0 then (off : ℤ) - s else 0

/-- A table: it refers to a vtable that fits. -/
structure TableAt (c : List UInt8) (off : ℕ) (slots : List ℕ) : Prop where
  aligned : 4 ∣ off
  vtable : ∃ vt size : ℕ, Holds c off (toBytes 4 ((vt : ℤ) - off)) ∧
    VtableAt c vt (shortsOf off size slots)

theorem TableAt.mono {c c' : List UInt8} {off : ℕ} {slots : List ℕ} (h : TableAt c off slots)
    (hsuffix : c <:+ c') : TableAt c' off slots := by
  obtain ⟨vt, size, hholds, hvtable⟩ := h.vtable
  exact ⟨h.aligned, vt, size, hholds.mono hsuffix, hvtable.mono hsuffix⟩

theorem shortsOf_length (off size : ℕ) (slots : List ℕ) :
    ∃ rest, shortsOf off size slots = 2 * ((shortsOf off size slots).length : ℤ) :: rest := by
  refine ⟨(shortsOf off size slots).tail, ?_⟩
  rw [shortsOf, List.length_cons, List.length_cons, List.length_map, List.tail_cons]
  push_cast
  rw [mul_comm, add_assoc, one_add_one_eq_two]

theorem shortsOf_inRange {off size : ℕ} {slots : List ℕ} (hsize : size < 2 ^ 15)
    (hcount : slots.length + 2 < 2 ^ 14)
    (hslots : ∀ s ∈ slots, s = 0 ∨ (off < s + 2 ^ 15 ∧ s ≤ off)) :
    ∀ x ∈ shortsOf off size slots, InRange 2 x := by
  intro x hx
  simp only [InRange, shortsOf, List.mem_cons, List.mem_map] at hx ⊢
  norm_num
  rcases hx with rfl | rfl | ⟨s, hs, rfl⟩
  · constructor <;> omega
  · constructor <;> omega
  · rcases hslots s hs with rfl | ⟨hlow, hhigh⟩
    · simp
    · split_ifs <;> constructor <;> omega

section Vtables
variable {b : FlatBufferBuilder}

theorem addShort_spec (x : ℤ) (haligned : b.offset % 2 = 0) (hroom : b.offset + 4 ≤ maxSize) :
    ∃ b', b.addNumber 2 x = .ok b' ∧ Writes b b' (toBytes 2 x) := by
  obtain ⟨b', k, hadd, hwrites, hk, hdvd, -⟩ := addNumber_spec (b := b) isSize_two x hroom
  have hoffset := hwrites.offset
  rw [List.length_append, length_toBytes, List.length_replicate] at hoffset
  obtain rfl : k = 0 := by omega
  rw [List.replicate_zero, List.append_nil] at hwrites
  exact ⟨b', hadd, hwrites⟩

/-- Shorts, the last one first. -/
theorem addShorts_spec {α : Type} (f : α → ℤ) (l : List α) (hfits : b.offset ≤ b.capacity)
    (haligned : b.offset % 2 = 0) (hroom : b.offset + (2 * l.length + 4) ≤ maxSize) :
    ∃ b', l.reverse.foldlM (fun b a => b.addNumber 2 (f a)) b = .ok b' ∧
      Writes b b' ((l.map f).flatMap (toBytes 2)) := by
  induction l with
  | nil => exact ⟨b, rfl, b.capacity, b.minalign, le_rfl, hfits, le_rfl, id, rfl⟩
  | cons a l ih =>
    rw [List.length_cons] at hroom
    obtain ⟨b₁, hfold, hwrites⟩ := ih (by omega)
    have hoffset := hwrites.offset
    rw [length_flatMap_toBytes, List.length_map] at hoffset
    obtain ⟨b₂, hadd, hwrites'⟩ := addShort_spec (b := b₁) (f a) (by omega) (by omega)
    refine ⟨b₂, ?_, hwrites.trans hwrites'⟩
    rw [List.reverse_cons, List.foldlM_append]
    exact (ok_bind hfold).trans ((ok_bind hadd).trans rfl)

/-- A number of a vtable is read. -/
theorem VtableAt.getShort {vt i : ℕ} {shorts : List ℤ} {x : ℤ}
    (h : VtableAt b.bytes vt shorts) (hfits : b.offset ≤ b.capacity) (hi : shorts[i]? = some x) :
    b.getShort (b.capacity - vt + 2 * i) = x := by
  have hheld := h.holds.get hi
  have hle := h.holds.length_le
  have hlt : i < shorts.length := (List.getElem?_eq_some_iff.mp hi).1
  rw [length_flatMap_toBytes] at hle
  rw [FlatBufferBuilder.offset] at hfits
  have hpos : (b.capacity : ℕ) - vt + 2 * i - b.space = b.bytes.length - (vt - 2 * i) := by
    rw [space]
    omega
  have hdrop := hheld.drop
  rw [length_toBytes] at hdrop
  rw [FlatBufferBuilder.getShort, hpos, SIZEOF_SHORT, hdrop]
  exact ofBytes_toBytes (h.inRange x (List.mem_of_getElem? hi))

/-- The comparison of two vtables finds equal ones only. -/
theorem sameVtable_sound {vt vt' : ℕ} {shorts shorts' : List ℤ} (h : VtableAt b.bytes vt shorts)
    (h' : VtableAt b.bytes vt' shorts') (hfits : b.offset ≤ b.capacity)
    (hsame : b.sameVtable (b.capacity - vt) (b.capacity - vt') = true) : shorts = shorts' := by
  obtain ⟨rest, hrest⟩ := h.length
  obtain ⟨rest', hrest'⟩ := h'.length
  have hfirst := h.getShort (i := 0) hfits (by rw [hrest]; rfl)
  have hfirst' := h'.getShort (i := 0) hfits (by rw [hrest']; rfl)
  rw [Nat.mul_zero, Nat.add_zero] at hfirst hfirst'
  obtain ⟨hlength, hall⟩ := Bool.and_eq_true_iff.mp hsame
  rw [hfirst, hfirst'] at hlength
  have hlength : shorts.length = shorts'.length := by
    have heq := eq_of_beq hlength
    omega
  rw [hfirst] at hall
  refine List.ext_getElem? fun i => ?_
  rcases Nat.lt_or_ge i shorts.length with hi | hi
  · have hget := h.getShort hfits (List.getElem?_eq_getElem hi)
    have hget' := h'.getShort hfits (List.getElem?_eq_getElem (hlength ▸ hi))
    rw [List.getElem?_eq_getElem hi, List.getElem?_eq_getElem (hlength ▸ hi), ← hget, ← hget']
    rcases Nat.eq_zero_or_pos i with rfl | hpos
    · rw [Nat.mul_zero, Nat.add_zero, Nat.add_zero, hfirst, hfirst', hlength]
    · have hmem : 2 * i ∈ (List.range (2 * (shorts.length : ℤ)).toNat).filter
          fun j => SIZEOF_SHORT ≤ j ∧ j % SIZEOF_SHORT = 0 := by
        rw [List.mem_filter, List.mem_range, SIZEOF_SHORT]
        refine ⟨by omega, ?_⟩
        simp
        omega
      exact congrArg some (eq_of_beq (List.all_eq_true.mp hall _ hmem))
  · rw [List.getElem?_eq_none hi, List.getElem?_eq_none (by omega)]

theorem overwrite_bytes {before old after : List UInt8} {off : ℕ} (x : ℤ)
    (hbytes : b.bytes = before ++ (old ++ after)) (hold : old.length = 4)
    (hoff : off = 4 + after.length) :
    (b.overwrite off x).bytes = before ++ (toBytes 4 x ++ after) := by
  have hn : b.bytes.length - off = before.length := by
    rw [hbytes, List.length_append, List.length_append]
    omega
  have hdrop : b.bytes.drop (before.length + 4) = after := by
    rw [hbytes, ← hold, ← List.append_assoc, ← List.length_append, List.drop_left]
  rw [overwrite]
  dsimp only
  rw [hn, SIZEOF_INT, hdrop, hbytes, List.take_left, List.append_assoc]

/-- The table and its vtable before equal vtables are looked for. -/
theorem writeVtable_spec (hstart : b.objectStart ≤ b.offset)
    (hroom : b.offset + (2 * b.vtable.length + 24) ≤ maxSize) :
    ∃ b₁ b₂ k, b.addNumber 4 0 = .ok b₁ ∧
      (∀ next : FlatBufferBuilder → Result (ℕ × FlatBufferBuilder),
        (b₁.vtable.reverse.foldlM (fun b o =>
            b.addNumber 2 (if o ≠ 0 then (b₁.offset : ℤ) - o else 0)) b₁ >>= fun b' =>
          b'.addNumber 2 ((b₁.offset : ℤ) - b'.objectStart) >>= fun b' =>
          b'.addNumber 2 (((b'.vtable.length : ℤ) + (2 : ℕ)) * (2 : ℕ)) >>= next) = next b₂) ∧
      Writes b b₁ (toBytes 4 0 ++ List.replicate k 0) ∧ k < 4 ∧ 4 ∣ b₁.offset ∧
      4 ≤ b₁.minalign ∧
      Writes b₁ b₂ ((shortsOf b₁.offset (b₁.offset - b.objectStart) b.vtable).flatMap
        (toBytes 2)) := by
  obtain ⟨b₁, k, hadd, hwrites, hk, hdvd, hminalign⟩ := addNumber_spec (b := b) isSize_four 0
    (by omega)
  have hoffset := hwrites.offset
  rw [List.length_append, length_toBytes, List.length_replicate] at hoffset
  obtain ⟨b₂, hshorts, hwrites₂⟩ := addShorts_spec (b := b₁)
    (fun o : ℕ => if o ≠ 0 then (b₁.offset : ℤ) - o else 0) b.vtable hwrites.grown.2.1
    (by omega) (by omega)
  have hoffset₂ := hwrites₂.offset
  rw [length_flatMap_toBytes, List.length_map] at hoffset₂
  obtain ⟨b₃, hsize, hwrites₃⟩ := addShort_spec (b := b₂) ((b₁.offset : ℤ) - b₂.objectStart)
    (by omega) (by omega)
  have hoffset₃ := hwrites₃.offset
  rw [length_toBytes] at hoffset₃
  obtain ⟨b₄, hlength, hwrites₄⟩ := addShort_spec (b := b₃)
    (((b₃.vtable.length : ℤ) + (2 : ℕ)) * (2 : ℕ)) (by omega) (by omega)
  rw [← hwrites.same.1] at hshorts
  refine ⟨b₁, b₄, k, hadd, fun next => (ok_bind hshorts).trans ((ok_bind hsize).trans
    (ok_bind hlength)), hwrites, hk, hdvd, hminalign, ?_⟩
  have hvtable : b₃.vtable = b.vtable :=
    hwrites₃.same.1.trans (hwrites₂.same.1.trans hwrites.same.1)
  have hsize : (b₁.offset : ℤ) - b₂.objectStart = (b₁.offset - b.objectStart : ℕ) := by
    rw [hwrites₂.same.2.2.1, hwrites.same.2.2.1]
    omega
  rw [hvtable] at hwrites₄
  rw [hsize] at hwrites₃
  exact (hwrites₂.trans hwrites₃).trans hwrites₄

theorem VtableAt.ne_zero {c : List UInt8} {vt : ℕ} {shorts : List ℤ} (h : VtableAt c vt shorts) :
    vt ≠ 0 := by
  obtain ⟨rest, hrest⟩ := h.length
  have hle := h.holds.length_le
  rw [length_flatMap_toBytes, hrest, List.length_cons] at hle
  omega

/-- The table points to a vtable with its numbers, and the vtables stay. -/
theorem shareVtable_spec {shorts : List ℤ} {old rest : List UInt8} {off : ℕ}
    (hbytes : b.bytes = shorts.flatMap (toBytes 2) ++ (old ++ rest)) (hold : old.length = 4)
    (hoff : off = 4 + rest.length) (hfits : b.offset ≤ b.capacity)
    (hnew : VtableAt b.bytes b.offset shorts)
    (hshared : ∀ vt ∈ b.vtables, ∃ shorts, VtableAt rest vt shorts) :
    ∃ (vt : ℕ) (before : List UInt8),
      (b.shareVtable off).bytes = before ++ (toBytes 4 ((vt : ℤ) - off) ++ rest) ∧
      before.length ≤ 2 * shorts.length ∧ VtableAt (b.shareVtable off).bytes vt shorts ∧
      (∀ vt' ∈ (b.shareVtable off).vtables, ∃ shorts',
        VtableAt (b.shareVtable off).bytes vt' shorts') ∧
      (b.shareVtable off).capacity = b.capacity ∧ (b.shareVtable off).minalign = b.minalign ∧
      (b.shareVtable off).forceDefaults = b.forceDefaults := by
  have hrest : rest <:+ b.bytes := by
    rw [hbytes, ← List.append_assoc]
    exact List.suffix_append _ _
  cases hfind : b.vtables.find? fun vt => b.sameVtable (b.capacity - vt) b.space with
  | some vt =>
    obtain ⟨shorts', hvt⟩ := hshared vt (List.mem_of_find?_eq_some hfind)
    have hsame := List.find?_some hfind
    have heq : shorts' = shorts :=
      sameVtable_sound (hvt.mono hrest) hnew hfits hsame
    rw [heq] at hvt
    have hdrop : b.bytes.drop (b.bytes.length - off) = [] ++ (old ++ rest) := by
      have hn : b.bytes.length - off = (shorts.flatMap (toBytes 2)).length := by
        rw [hbytes, List.length_append, List.length_append]
        omega
      rw [hn, hbytes, List.drop_left, List.nil_append]
    have hshare : b.shareVtable off = ({ b with
        bytes := b.bytes.drop (b.bytes.length - off) } : FlatBufferBuilder).overwrite off
          ((vt : ℤ) - off) := by
      rw [shareVtable, hfind]
      exact if_pos hvt.ne_zero
    have hresult : (b.shareVtable off).bytes = [] ++ (toBytes 4 ((vt : ℤ) - off) ++ rest) := by
      rw [hshare]
      exact overwrite_bytes _ hdrop hold hoff
    have hsuffix : rest <:+ (b.shareVtable off).bytes := by
      rw [hresult, List.nil_append]
      exact List.suffix_append _ _
    refine ⟨vt, [], hresult, Nat.zero_le _, hvt.mono hsuffix, fun vt' hvt' => ?_, ?_, ?_, ?_⟩
    · rw [hshare] at hvt'
      obtain ⟨shorts', hshorts'⟩ := hshared vt' hvt'
      exact ⟨shorts', hshorts'.mono hsuffix⟩
    · rw [hshare]
      rfl
    · rw [hshare]
      rfl
    · rw [hshare]
      rfl
  | none =>
    have hshare : b.shareVtable off = ({ b with
        vtables := b.vtables ++ [b.offset] } : FlatBufferBuilder).overwrite off
          ((b.offset : ℤ) - off) := by
      rw [shareVtable, hfind]
      exact if_neg (by simp)
    have hresult : (b.shareVtable off).bytes =
        shorts.flatMap (toBytes 2) ++ (toBytes 4 ((b.offset : ℤ) - off) ++ rest) := by
      rw [hshare]
      exact overwrite_bytes _ hbytes hold hoff
    have hlength : b.offset = (b.shareVtable off).bytes.length := by
      rw [hresult, FlatBufferBuilder.offset, hbytes]
      simp [hold]
    have hsuffix : rest <:+ (b.shareVtable off).bytes := by
      rw [hresult, ← List.append_assoc]
      exact List.suffix_append _ _
    have hvt : VtableAt (b.shareVtable off).bytes b.offset shorts := by
      refine ⟨?_, hnew.length, hnew.inRange⟩
      rw [hlength, hresult]
      exact holds_push _ _
    refine ⟨b.offset, _, hresult, by rw [length_flatMap_toBytes], hvt, fun vt' hvt' => ?_, ?_, ?_,
      ?_⟩
    · rw [hshare] at hvt'
      rcases List.mem_append.mp hvt' with hvt' | hvt'
      · obtain ⟨shorts', hshorts'⟩ := hshared vt' hvt'
        exact ⟨shorts', hshorts'.mono hsuffix⟩
      · obtain rfl := List.mem_singleton.mp hvt'
        exact ⟨shorts, hvt⟩
    · rw [hshare]
      rfl
    · rw [hshare]
      rfl
    · rw [hshare]
      rfl

/-- CORRECT: a table is ended with a vtable that says where its fields are, a new one or one that
    was there before. -/
theorem endObject_spec (hnested : b.nested = true) (hdefaults : b.forceDefaults = false)
    (haligned : IsSize b.minalign) (hstart : b.objectStart ≤ b.offset)
    (hslots : ∀ s ∈ b.vtable, s = 0 ∨ (b.objectStart < s ∧ s ≤ b.offset))
    (hshared : ∀ vt ∈ b.vtables, ∃ shorts, VtableAt b.bytes vt shorts)
    (hsize : b.offset - b.objectStart + 8 < 2 ^ 15) (hcount : b.vtable.length + 2 < 2 ^ 14)
    (hroom : b.offset + (2 * b.vtable.length + 24) ≤ maxSize) :
    ∃ off b', b.endObject = .ok (off, b') ∧ Ready b' ∧
      Extends b b' (2 * b.vtable.length + 24) ∧ b.offset < off ∧ off ≤ b'.offset ∧
      4 ≤ b'.minalign ∧ TableAt b'.bytes off b.vtable := by
  obtain ⟨b₁, b₂, k, hadd, hvtable, hwrites₁, hk, hdvd, hminalign, hwrites₂⟩ :=
    writeVtable_spec hstart hroom
  set shorts := shortsOf b₁.offset (b₁.offset - b.objectStart) b.vtable with hshorts
  have hoffset₁ := hwrites₁.offset
  rw [List.length_append, length_toBytes, List.length_replicate] at hoffset₁
  have hlength : shorts.length = b.vtable.length + 2 := by
    rw [hshorts, shortsOf, List.length_cons, List.length_cons, List.length_map]
  have hoffset₂ := hwrites₂.offset
  rw [length_flatMap_toBytes, hlength] at hoffset₂
  have hfits₂ : b₂.offset ≤ b₂.capacity := hwrites₂.grown.2.1
  have hnew : VtableAt b₂.bytes b₂.offset shorts := by
    refine ⟨hwrites₂.holds, shortsOf_length _ _ _, shortsOf_inRange (by omega) (by omega)
      fun s hs => ?_⟩
    · rcases hslots s hs with hzero | ⟨hlow, hhigh⟩
      · exact .inl hzero
      · exact .inr ⟨by omega, by omega⟩
  -- The bytes after the soffset of the table, which both cases keep.
  set rest := List.replicate k (0 : UInt8) ++ b.bytes with hrest
  have hbytes₁ : b₁.bytes = toBytes 4 0 ++ rest := by
    rw [hwrites₁.bytes, List.append_assoc]
  have hbytes₂ : b₂.bytes = shorts.flatMap (toBytes 2) ++ (toBytes 4 0 ++ rest) := by
    rw [hwrites₂.bytes, hbytes₁]
  have hrestLength : b₁.offset = 4 + rest.length := by
    rw [FlatBufferBuilder.offset, hbytes₁, List.length_append, length_toBytes]
  have hbase : b.bytes <:+ rest := List.suffix_append _ _
  obtain ⟨-, -, -, hvtables₁, -, hdefaults₁⟩ := hwrites₁.same
  obtain ⟨-, -, -, hvtables₂, -, hdefaults₂⟩ := hwrites₂.same
  have hsize₂ := hwrites₂.grown.2.2.2 (hwrites₁.grown.2.2.2 haligned)
  have hminalign₂ := hwrites₁.grown.2.2.1.trans hwrites₂.grown.2.2.1
  have hminalign₄ := hminalign.trans hwrites₂.grown.2.2.1
  have hrun : b.endObject = .ok (b₁.offset, { b₂.shareVtable b₁.offset with nested := false }) := by
    rw [endObject, hnested]
    exact (ok_bind hadd).trans (hvtable fun b' =>
      .ok (b₁.offset, { b'.shareVtable b₁.offset with nested := false }))
  obtain ⟨vt, before, hbytes, hbefore, hvt, hvts, hcapacity, hminalign', hdefaults'⟩ :=
    shareVtable_spec hbytes₂ (length_toBytes 4 0) hrestLength hfits₂ hnew (by
      rw [hvtables₂, hvtables₁]
      intro vt hvt
      obtain ⟨shorts', hshorts'⟩ := hshared vt hvt
      exact ⟨shorts', hshorts'.mono hbase⟩)
  have hoffset : (b₂.shareVtable b₁.offset).offset = before.length + b₁.offset := by
    rw [FlatBufferBuilder.offset, hbytes, List.length_append, List.length_append, length_toBytes,
      hrestLength]
  refine ⟨b₁.offset, _, hrun, ⟨rfl, ?_, ?_, ?_, hvts⟩, ⟨?_, ?_, ?_⟩, by omega, ?_, ?_, hdvd, vt, _,
    ?_, hvt⟩
  · exact hdefaults'.trans (hdefaults₂.trans (hdefaults₁.trans hdefaults))
  · exact hminalign' ▸ hsize₂
  · show (b₂.shareVtable b₁.offset).offset ≤ ((b₂.shareVtable b₁.offset).capacity : ℕ)
    rw [hcapacity]
    omega
  · show b.bytes <:+ (b₂.shareVtable b₁.offset).bytes
    rw [hbytes, ← List.append_assoc]
    exact hbase.trans (List.suffix_append _ _)
  · show (b₂.shareVtable b₁.offset).offset ≤ _
    omega
  · show b.minalign ≤ (b₂.shareVtable b₁.offset).minalign
    omega
  · show b₁.offset ≤ (b₂.shareVtable b₁.offset).offset
    omega
  · show 4 ≤ (b₂.shareVtable b₁.offset).minalign
    omega
  · refine ⟨rest, ?_, ?_⟩
    · show _ <:+ (b₂.shareVtable b₁.offset).bytes
      rw [hbytes]
      exact List.suffix_append _ _
    · rw [length_toBytes, hrestLength]

/-- The bytes a table takes at most. -/
def tableCost (numfields : ℕ) (fields : List (ℕ × Field)) : ℕ :=
  (fields.map (·.2.cost)).sum + (2 * numfields + 24)

/-- What a table has written: its fields, each in its slot, and nothing in the other slots. -/
structure TableWith (c : List UInt8) (off numfields : ℕ) (fields : List (ℕ × Field))
    (slots : List ℕ) : Prop where
  table : TableAt c off slots
  length : slots.length = numfields
  below : ∀ s ∈ slots, s < off
  written : ∀ f ∈ fields, ∃ s, slots[f.1]? = some s ∧ Written c s f.2
  empty : ∀ o, o ∉ fields.map (·.1) → o < numfields → slots[o]? = some 0

theorem TableWith.mono {c c' : List UInt8} {off numfields : ℕ} {fields : List (ℕ × Field)}
    {slots : List ℕ} (h : TableWith c off numfields fields slots) (hsuffix : c <:+ c') :
    TableWith c' off numfields fields slots := by
  refine ⟨h.table.mono hsuffix, h.length, h.below, fun f hf => ?_, h.empty⟩
  obtain ⟨s, hs, hwritten⟩ := h.written f hf
  exact ⟨s, hs, hwritten.mono hsuffix⟩

/-- CORRECT: a table is written with all its fields. -/
theorem createTable_spec (hready : Ready b) (numfields : ℕ) (fields : List (ℕ × Field))
    (hfields : ∀ f ∈ fields, f.2.Allowed b.offset) (hdistinct : (fields.map (·.1)).Nodup)
    (hslots : ∀ f ∈ fields, f.1 < numfields)
    (hsize : (fields.map (·.2.cost)).sum + 8 < 2 ^ 15) (hcount : numfields + 2 < 2 ^ 14)
    (hroom : b.offset + tableCost numfields fields ≤ maxSize) :
    ∃ off b' slots, b.createTable numfields fields = .ok (off, b') ∧ Ready b' ∧
      Extends b b' (tableCost numfields fields) ∧ b.offset < off ∧ off ≤ b'.offset ∧
      4 ≤ b'.minalign ∧ TableWith b'.bytes off numfields fields slots ∧
      ∀ f ∈ fields, f.2.Present → f.2.size ≤ b'.minalign := by
  rw [tableCost] at hroom ⊢
  have hstarted : b.startObject numfields = .ok { b with
      vtable := List.replicate numfields 0
      nested := true
      objectStart := b.offset } := by
    have hnested : b.notNested = .ok () := if_neg (by simp [hready.idle])
    exact ok_bind hnested
  obtain ⟨b₁, bs, vtable, hadd, hwrites, hlength, hvtable, hwritten, hothers, hentries, hsizes⟩ :=
    addFields_spec (b := { b with
      vtable := List.replicate numfields 0
      nested := true
      objectStart := b.offset }) b.offset fields hready.defaults hready.fits hfields
      le_rfl hdistinct
      (fun f hf => by
        show (List.replicate numfields 0)[f.1]? = some 0
        rw [List.getElem?_replicate, if_pos (hslots f hf)])
      (by
        show b.offset + _ ≤ maxSize
        omega)
  have hoffset : b₁.offset = bs.length + b.offset := hwrites.offset
  obtain ⟨-, hnested₁, hstart₁, hvtables₁, -, hdefaults₁⟩ := hwrites.same
  have hsuffix : b.bytes <:+ b₁.bytes := hwrites.suffix
  have hcount' : vtable.length = numfields := hvtable.trans List.length_replicate
  have hstart : b₁.objectStart = b.offset := hstart₁
  obtain ⟨off, b', hend, hready', hextends, hlow, hhigh, hminalign, htable⟩ :=
    endObject_spec (b := { b₁ with vtable := vtable }) hnested₁
      (hdefaults₁.trans hready.defaults) (hwrites.grown.2.2.2 hready.aligned)
      (by
        show b₁.objectStart ≤ b₁.offset
        omega)
      (fun s hs => by
        show s = 0 ∨ (b₁.objectStart < s ∧ s ≤ b₁.offset)
        rcases hentries s hs with hmem | hzero | ⟨hlow, hhigh⟩
        · exact .inl (List.eq_of_mem_replicate hmem)
        · exact .inl hzero
        · have hlow' : b.offset < s := hlow
          exact .inr ⟨by omega, hhigh⟩)
      (fun vt hvt => by
        rw [show ({ b₁ with vtable := vtable } : FlatBufferBuilder).vtables = b.vtables from
          hvtables₁] at hvt
        obtain ⟨shorts, hshorts⟩ := hready.shared vt hvt
        exact ⟨shorts, hshorts.mono hsuffix⟩)
      (by
        show b₁.offset - b₁.objectStart + 8 < 2 ^ 15
        omega)
      (by
        show vtable.length + 2 < 2 ^ 14
        omega)
      (by
        show b₁.offset + (2 * vtable.length + 24) ≤ maxSize
        omega)
  have hbounded : b'.offset ≤ b₁.offset + (2 * vtable.length + 24) := hextends.bounded
  have hlow' : b₁.offset < off := hlow
  refine ⟨off, b', vtable, (ok_bind hstarted).trans ((ok_bind hadd).trans hend), hready',
    ⟨hsuffix.trans hextends.suffix, by omega, ?_⟩, by omega, hhigh, hminalign,
    ⟨htable, hcount', fun s hs => ?_, fun f hf => ?_, fun o ho hlt => ?_⟩,
    fun f hf hpresent => (hsizes f hf hpresent).trans hextends.minalign⟩
  · have hle : b.minalign ≤ b₁.minalign := hwrites.grown.2.2.1
    exact hle.trans hextends.minalign
  · rcases hentries s hs with hmem | hzero | ⟨-, hhigh⟩
    · have hzero := List.eq_of_mem_replicate hmem
      omega
    · omega
    · omega
  · obtain ⟨s, hs, hfield⟩ := hwritten f hf
    exact ⟨s, hs, hfield.mono hextends.suffix⟩
  · rw [hothers o ho]
    show (List.replicate numfields 0)[o]? = some 0
    rw [List.getElem?_replicate, if_pos hlt]

end Vtables

end Motis.Android.FlatBufferBuilder
