import Motis.Android.FlatTable

/-! Whole messages, written and read.

    A message is written by any number of calls, each of which creates a string, a vector or a table
    that may refer to what was created before. When it is finished with one of the tables as its
    root, every table is found again, with all its fields, and every number is aligned. -/

namespace Motis.Android
open ByteStack FlatBufferBuilder Fallible

/-! ### Messages -/

/-- A call of the builder. Offsets name the results of earlier calls by their numbers. -/
inductive Call where
  | string (s : List UInt8)
  | vector (refs : List ℕ)
  | table (numfields : ℕ) (fields : List (ℕ × Field))

/-- The field with the offset that an earlier call has given. -/
def FlatBufferBuilder.Field.resolve (results : List ℕ) : Field → Field
  | .offset i => .offset (results.getD i 0)
  | f => f

def resolveFields (results : List ℕ) (fields : List (ℕ × Field)) : List (ℕ × Field) :=
  fields.map fun f => (f.1, f.2.resolve results)

def Call.create (b : FlatBufferBuilder) (results : List ℕ) : Call → Result (ℕ × FlatBufferBuilder)
  | string s => b.createString s
  | vector refs => b.createOffsetVector (refs.map (results.getD · 0))
  | table numfields fields => b.createTable numfields (resolveFields results fields)

/-- The offsets that all calls give. -/
def createAll (b : FlatBufferBuilder) (results : List ℕ) :
    List Call → Result (List ℕ × FlatBufferBuilder)
  | [] => .ok (results, b)
  | call :: calls => do
    let created ← call.create b results
    createAll created.2 (results ++ [created.1]) calls

/-- A whole message: the calls, and the number of the one that gives the root. -/
def writeMessage (calls : List Call) (root : ℕ) : Result (List UInt8) := do
  let (results, b) ← createAll {} [] calls
  let b ← b.finish (results.getD root 0)
  b.sizedByteArray

/-- `getRootAs...`, for a buffer that begins with the message. -/
def getRoot (bb : List UInt8) : Option Table := do return ⟨bb, ← getNumber bb 0 4⟩

/-! ### Calls -/

/-- The bytes a call takes at most. -/
def Call.cost : Call → ℕ
  | string s => s.length + 16
  | vector refs => 4 * refs.length + 24
  | table numfields fields => tableCost numfields fields

/-- The field can be added after `n` calls. -/
def FlatBufferBuilder.Field.Valid (n : ℕ) : Field → Prop
  | .number size x d => IsSize size ∧ InRange size x ∧ InRange size d
  | .offset i => i < n
  | .struct size members => IsSize size ∧ members ≠ [] ∧ ∀ x ∈ members, InRange size x

/-- What a call after `n` others may look like. -/
def Call.Valid (n : ℕ) : Call → Prop
  | string _ => True
  | vector refs => ∀ i ∈ refs, i < n
  | table numfields fields => (∀ f ∈ fields, f.2.Valid n ∧ f.1 < numfields) ∧
      (fields.map (·.1)).Nodup ∧ (fields.map (·.2.cost)).sum + 8 < 2 ^ 15 ∧ numfields + 2 < 2 ^ 14

/-- Every call refers to earlier ones only. -/
def AllValid : ℕ → List Call → Prop
  | _, [] => True
  | n, call :: calls => call.Valid n ∧ AllValid (n + 1) calls

/-- What a call has left in the buffer, at its offset. -/
def Created (c : List UInt8) (minalign : ℕ) (results : List ℕ) (off : ℕ) : Call → Prop
  | .string s => StringAt c off s
  | .vector refs => OffsetsAt c off (refs.map (results.getD · 0))
  | .table numfields fields =>
    (∃ slots, TableWith c off numfields (resolveFields results fields) slots) ∧
      ∀ f ∈ fields, (f.2.resolve results).Present → f.2.size ≤ minalign

section Calls
variable {b : FlatBufferBuilder} {results more : List ℕ}

@[simp] theorem resolve_cost (f : Field) : (f.resolve results).cost = f.cost := by
  cases f <;> rfl

@[simp] theorem resolve_size (f : Field) : (f.resolve results).size = f.size := by
  cases f <;> rfl

theorem map_resolveFields_cost (fields : List (ℕ × Field)) :
    (resolveFields results fields).map (·.2.cost) = fields.map (·.2.cost) := by
  simp [resolveFields, Function.comp_def]

theorem map_resolveFields_fst (fields : List (ℕ × Field)) :
    (resolveFields results fields).map (·.1) = fields.map (·.1) := by
  simp [resolveFields, Function.comp_def]

/-- Offsets of later calls do not matter to a field. -/
theorem resolve_append {f : Field} (hf : f.Valid results.length) :
    f.resolve (results ++ more) = f.resolve results := by
  cases f with
  | offset i =>
    have hlt : i < results.length := hf
    simp [Field.resolve, List.getD_eq_getElem?_getD, List.getElem?_append_left hlt]
  | number size x d => rfl
  | struct size members => rfl

theorem resolveFields_append {fields : List (ℕ × Field)}
    (hfields : ∀ f ∈ fields, f.2.Valid results.length) :
    resolveFields (results ++ more) fields = resolveFields results fields :=
  List.map_congr_left fun f hf => by rw [resolve_append (hfields f hf)]

theorem getD_append {refs : List ℕ} (hrefs : ∀ i ∈ refs, i < results.length) :
    refs.map ((results ++ more).getD · 0) = refs.map (results.getD · 0) :=
  List.map_congr_left fun i hi => by
    simp [List.getD_eq_getElem?_getD, List.getElem?_append_left (hrefs i hi)]

/-- What a call has left stays, whatever is written after it. -/
theorem Created.mono {c c' : List UInt8} {minalign minalign' off : ℕ} {call : Call}
    (h : Created c minalign results off call) (hvalid : call.Valid results.length)
    (hsuffix : c <:+ c') (hle : minalign ≤ minalign') :
    Created c' minalign' (results ++ more) off call := by
  cases call with
  | string s => exact Holds.mono h hsuffix
  | vector refs =>
    obtain ⟨hlength, hget⟩ := h
    rw [Created, getD_append hvalid]
    exact ⟨hlength.mono hsuffix, fun j r hj => (hget j r hj).mono hsuffix⟩
  | table numfields fields =>
    obtain ⟨⟨slots, hslots⟩, hsizes⟩ := h
    have hfields : ∀ f ∈ fields, f.2.Valid results.length := fun f hf => (hvalid.1 f hf).1
    refine ⟨⟨slots, ?_⟩, fun f hf => ?_⟩
    · rw [resolveFields_append hfields]
      exact hslots.mono hsuffix
    · rw [resolve_append (hfields f hf)]
      exact fun hpresent => (hsizes f hf hpresent).trans hle

/-- One call. -/
theorem create_spec (hready : Ready b) {call : Call} (hvalid : call.Valid results.length)
    (hresults : ∀ off ∈ results, off ≤ b.offset) (hroom : b.offset + call.cost ≤ maxSize) :
    ∃ off b', call.create b results = .ok (off, b') ∧ Ready b' ∧ Extends b b' call.cost ∧
      b.offset < off ∧ off ≤ b'.offset ∧ Created b'.bytes b'.minalign results off call ∧
      ((∃ numfields fields, call = .table numfields fields) → 4 ≤ b'.minalign) := by
  have hresolved : ∀ i < results.length, results.getD i 0 ≤ b.offset := by
    intro i hi
    refine hresults _ ?_
    rw [List.getD_eq_getElem _ _ hi]
    exact List.getElem_mem hi
  cases call with
  | string s =>
    obtain ⟨off, b', hcreate, hready', hextends, hlow, hhigh, hstring⟩ :=
      createString_spec hready s hroom
    exact ⟨off, b', hcreate, hready', hextends, hlow, hhigh, hstring, by simp⟩
  | vector refs =>
    obtain ⟨off, b', hcreate, hready', hextends, hlow, hhigh, hoffsets⟩ :=
      createOffsetVector_spec hready (refs.map (results.getD · 0))
        (List.forall_mem_map.mpr fun i hi => hresolved i (hvalid i hi))
        (by rwa [List.length_map])
    rw [List.length_map] at hextends
    exact ⟨off, b', hcreate, hready', hextends, hlow, hhigh, hoffsets, by simp⟩
  | table numfields fields =>
    obtain ⟨hfields, hdistinct, hsize, hcount⟩ := hvalid
    obtain ⟨off, b', slots, hcreate, hready', hextends, hlow, hhigh, hminalign, htable, hsizes⟩ :=
      createTable_spec hready numfields (resolveFields results fields)
        (List.forall_mem_map.mpr fun f hf => by
          have hf := (hfields f hf).1
          cases hfield : f.2 with
          | number size x d =>
            rw [hfield] at hf
            exact hf.1
          | offset i =>
            rw [hfield] at hf
            exact hresolved i hf
          | struct size members =>
            rw [hfield] at hf
            exact ⟨hf.1, hf.2.1⟩)
        (by rwa [map_resolveFields_fst])
        (List.forall_mem_map.mpr fun f hf => (hfields f hf).2)
        (by rwa [map_resolveFields_cost]) hcount
        (by
          rw [tableCost, map_resolveFields_cost]
          exact hroom)
    rw [tableCost, map_resolveFields_cost] at hextends
    refine ⟨off, b', hcreate, hready', hextends, hlow, hhigh, ⟨⟨slots, htable⟩, fun f hf => ?_⟩,
      fun _ => hminalign⟩
    have hsizes := hsizes (f.1, f.2.resolve results) (List.mem_map_of_mem hf)
    rwa [resolve_size] at hsizes

/-- The buffer after some calls. -/
structure Holding (b : FlatBufferBuilder) (results : List ℕ) (done : List Call) : Prop where
  ready : Ready b
  length : results.length = done.length
  results_le : ∀ off ∈ results, off ≤ b.offset
  created : ∀ (k : ℕ) (call : Call) (off : ℕ), done[k]? = some call → results[k]? = some off →
    0 < off ∧ call.Valid k ∧ Created b.bytes b.minalign results off call
  tables : ∀ numfields fields, Call.table numfields fields ∈ done → 4 ≤ b.minalign

theorem Field.Valid.mono {n m : ℕ} {f : Field} (hf : f.Valid n) (hle : n ≤ m) : f.Valid m := by
  cases f with
  | offset i => exact lt_of_lt_of_le hf hle
  | number size x d => exact hf
  | struct size members => exact hf

theorem Call.Valid.mono {n m : ℕ} {call : Call} (h : call.Valid n) (hle : n ≤ m) :
    call.Valid m := by
  cases call with
  | string s => trivial
  | vector refs => exact fun i hi => lt_of_lt_of_le (h i hi) hle
  | table numfields fields =>
    exact ⟨fun f hf => ⟨Field.Valid.mono (h.1 f hf).1 hle, (h.1 f hf).2⟩, h.2⟩

/-- One call more. -/
theorem Holding.step {done : List Call} {call : Call} (h : Holding b results done)
    (hvalid : call.Valid results.length) (hroom : b.offset + call.cost ≤ maxSize) :
    ∃ off b', call.create b results = .ok (off, b') ∧
      Holding b' (results ++ [off]) (done ++ [call]) ∧ b'.offset ≤ b.offset + call.cost := by
  obtain ⟨off, b', hcreate, hready, hextends, hlow, hhigh, hcreated, htable⟩ :=
    create_spec h.ready hvalid h.results_le hroom
  refine ⟨off, b', hcreate, ⟨hready, ?_, ?_, ?_, ?_⟩, hextends.bounded⟩
  · simp [h.length]
  · intro off' hoff'
    rcases List.mem_append.mp hoff' with hoff' | hoff'
    · exact (h.results_le off' hoff').trans hextends.offset_le
    · rw [List.mem_singleton.mp hoff']
      exact hhigh
  · intro k call' off' hk hoff'
    rcases Nat.lt_or_ge k results.length with hlt | hge
    · rw [List.getElem?_append_left (h.length ▸ hlt)] at hk
      rw [List.getElem?_append_left hlt] at hoff'
      obtain ⟨hpos, hvalid', hcreated'⟩ := h.created k call' off' hk hoff'
      refine ⟨hpos, hvalid', ?_⟩
      exact hcreated'.mono (hvalid'.mono hlt.le) hextends.suffix hextends.minalign
    · rw [List.getElem?_append_right (h.length ▸ hge), List.getElem?_singleton] at hk
      rw [List.getElem?_append_right hge, List.getElem?_singleton] at hoff'
      split_ifs at hk hoff' with hzero
      obtain rfl := Option.some_inj.mp hk
      obtain rfl := Option.some_inj.mp hoff'
      have hkeq : k = results.length := by
        have := h.length
        omega
      subst hkeq
      exact ⟨by omega, hvalid, hcreated.mono hvalid List.suffix_rfl le_rfl⟩
  · intro numfields fields hmem
    rcases List.mem_append.mp hmem with hmem | hmem
    · exact (h.tables numfields fields hmem).trans hextends.minalign
    · exact htable ⟨numfields, fields, (List.mem_singleton.mp hmem).symm⟩

/-- All calls. -/
theorem createAll_spec (calls : List Call) {done : List Call} (h : Holding b results done)
    (hvalid : AllValid results.length calls)
    (hroom : b.offset + (calls.map Call.cost).sum ≤ maxSize) :
    ∃ results' b', createAll b results calls = .ok (results', b') ∧
      Holding b' results' (done ++ calls) ∧
      b'.offset ≤ b.offset + (calls.map Call.cost).sum := by
  induction calls generalizing b results done with
  | nil => exact ⟨results, b, rfl, by rwa [List.append_nil], by simp⟩
  | cons call calls ih =>
    rw [List.map_cons, List.sum_cons] at hroom ⊢
    obtain ⟨hcall, hcalls⟩ := hvalid
    obtain ⟨off, b₁, hcreate, hholding, hbounded⟩ := h.step hcall (by omega)
    obtain ⟨results', b', hall, hholding', hbounded'⟩ := ih hholding
      (by rwa [List.length_append, List.length_singleton]) (by omega)
    refine ⟨results', b', (ok_bind hcreate).trans hall, ?_, by omega⟩
    rwa [List.append_assoc, List.singleton_append] at hholding'

/-! ### The finished message -/

/-- `finish` puts the offset of the root in front, so that the message is aligned as a whole. -/
theorem finish_spec (hready : Ready b) (hminalign : 4 ≤ b.minalign) {root : ℕ}
    (hroot : root ≤ b.offset) (hroom : b.offset + 24 ≤ maxSize) :
    ∃ b', b.finish root = .ok b' ∧ b'.finished = true ∧ b.bytes <:+ b'.bytes ∧
      b'.offset ≤ b.offset + 24 ∧ b.minalign ∣ b'.offset ∧
      Holds b'.bytes b'.offset (toBytes 4 ((b'.offset : ℤ) - root)) := by
  have hle : b.minalign ≤ 8 := by
    rcases hready.aligned with h | h | h | h <;> omega
  have hfour : 4 ∣ b.minalign := by
    rcases hready.aligned with h | h | h | h <;> omega
  obtain ⟨b₁, k, hprep, hwrites, hk, hmod, -, -⟩ := prep_spec (b := b) hready.aligned 4
    (by omega)
  have hoffset := hwrites.offset
  rw [List.length_replicate] at hoffset
  have haligned : b₁.offset % 4 = 0 := by
    have hdvd : 4 ∣ b₁.offset + 4 := hfour.trans (Nat.dvd_of_mod_eq_zero hmod)
    omega
  obtain ⟨b₂, hadd, hwrites', hoffset'⟩ := addOffset_aligned (b := b₁) root (by omega)
    (by omega) haligned
  refine ⟨{ b₂ with finished := true }, (ok_bind hprep).trans (ok_bind hadd), rfl,
    hwrites.suffix.trans hwrites'.suffix, ?_, ?_, hwrites'.holds⟩
  · show b₂.offset ≤ _
    omega
  · show b.minalign ∣ b₂.offset
    rw [hoffset', Nat.add_comm]
    exact Nat.dvd_of_mod_eq_zero hmod

end Calls

/-- A table is read as the call that created it. -/
structure ReadsTable (data : List UInt8) (calls : List Call) (results : List ℕ) (t : Table)
    (fields : List (ℕ × Field)) : Prop where
  number : ∀ (o size : ℕ) (x d : ℤ), (o, .number size x d) ∈ fields →
    t.numberField (4 + 2 * (o : ℕ)) size d = some x
  string : ∀ o i s, (o, .offset i) ∈ fields → calls[i]? = some (.string s) →
    t.stringField (4 + 2 * (o : ℕ)) = some (some s)
  table : ∀ o i numfields' fields', (o, .offset i) ∈ fields →
    calls[i]? = some (.table numfields' fields') →
    t.tableField (4 + 2 * (o : ℕ)) = some (some (tableAt data (results.getD i 0))) ∧
      t.unionField (4 + 2 * (o : ℕ)) = some (some (tableAt data (results.getD i 0)))
  vector : ∀ o i refs, (o, .offset i) ∈ fields → calls[i]? = some (.vector refs) →
    t.vectorLength (4 + 2 * (o : ℕ)) = some (refs.length : ℤ) ∧
      ∀ j r : ℕ, refs[j]? = some r →
        t.vectorElement (4 + 2 * (o : ℕ)) j = some (some (tableAt data (results.getD r 0)))
  struct : ∀ (o size : ℕ) (members : List ℤ), (o, .struct size members) ∈ fields →
    ∃ u, t.structField (4 + 2 * (o : ℕ)) = some (some u) ∧ u.bb = data ∧
      ∀ (j : ℕ) (x : ℤ), members[j]? = some x →
        getNumber data (u.bbPos + size * j) size = some x
  /-- Also when the writer does not know the field at all. -/
  empty : ∀ o, o ∉ fields.map (·.1) → t.offset (4 + 2 * (o : ℕ)) = some 0
  aligned : ∀ o f k, (o, f) ∈ fields → t.offset (4 + 2 * (o : ℕ)) = some k → k ≠ 0 →
    (f.size : ℤ) ∣ k + t.bbPos

theorem IsSize.dvd {size size' : ℕ} (h : IsSize size) (h' : IsSize size') (hle : size ≤ size') :
    size ∣ size' := by
  rcases h with rfl | rfl | rfl | rfl <;> rcases h' with rfl | rfl | rfl | rfl <;> omega

/-- Fields have the sizes of numbers. -/
theorem Field.Valid.isSize {n : ℕ} {f : Field} (hf : f.Valid n) : IsSize f.size := by
  cases f with
  | number size x d => exact hf.1
  | offset i => exact isSize_four
  | struct size members => exact hf.1

section Message
variable {b : FlatBufferBuilder} {results : List ℕ} {calls : List Call} {data : List UInt8}

/-- A field that is written lies at a multiple of its size. -/
theorem aligned_of_table {off numfields o : ℕ} {fields : List (ℕ × Field)} {slots : List ℕ}
    {f : Field} {k : ℤ} (h : TableWith data off numfields fields slots)
    (hsize : data.length ≤ maxSize) (hf : (o, f) ∈ fields)
    (hk : (tableAt data off).offset (4 + 2 * o) = some k) (hne : k ≠ 0)
    (hdvd : f.Present → f.size ∣ data.length) :
    (f.size : ℤ) ∣ k + (tableAt data off).bbPos := by
  obtain ⟨s, hs, hwritten⟩ := h.written _ hf
  rw [offset_of_table h.table hsize hs] at hk
  have hwhere : f.Present ∧ f.size ∣ s := by
    cases f with
    | number size x d =>
      rw [Written] at hwritten
      split_ifs at hwritten with hdefault
      · rw [if_neg (by simpa using hwritten)] at hk
        exact absurd (Option.some_inj.mp hk).symm hne
      · exact ⟨hdefault, hwritten.2.1⟩
    | offset i =>
      rw [Written] at hwritten
      split_ifs at hwritten with hnull
      · rw [if_neg (by simpa using hwritten)] at hk
        exact absurd (Option.some_inj.mp hk).symm hne
      · exact ⟨hnull, hwritten.2.1⟩
    | struct size members => exact ⟨trivial, hwritten.2.1⟩
  obtain ⟨hpresent, hs'⟩ := hwhere
  have hpos : k + (tableAt data off).bbPos = data.length - s := by
    split_ifs at hk
    · rw [← Option.some_inj.mp hk, tableAt]
      ring
    · exact absurd (Option.some_inj.mp hk).symm hne
  rw [hpos]
  exact Int.dvd_sub (Int.natCast_dvd_natCast.mpr (hdvd hpresent)) (Int.natCast_dvd_natCast.mpr hs')

/-- Every table of the message is read. -/
theorem reads_of_holding (h : Holding b results calls) (hsuffix : b.bytes <:+ data)
    (hsize : data.length ≤ maxSize) (hminalign : b.minalign ∣ data.length) {k numfields : ℕ}
    {fields : List (ℕ × Field)} (hk : calls[k]? = some (.table numfields fields)) :
    ReadsTable data calls results (tableAt data (results.getD k 0)) fields := by
  have hresult : ∀ (i : ℕ) (call : Call), calls[i]? = some call →
      0 < results.getD i 0 ∧ results.getD i 0 ≤ data.length ∧ call.Valid i ∧
        Created data b.minalign results (results.getD i 0) call := by
    intro i call hi
    have hlt : i < results.length := h.length ▸ (List.getElem?_eq_some_iff.mp hi).1
    have hoff : results[i]? = some (results.getD i 0) := by
      rw [List.getD_eq_getElem _ _ hlt, List.getElem?_eq_getElem hlt]
    obtain ⟨hpos, hvalid, hcreated⟩ := h.created i call _ hi hoff
    refine ⟨hpos, ?_, hvalid, ?_⟩
    · exact (h.results_le _ (List.mem_of_getElem? hoff)).trans hsuffix.length_le
    · have hmono : Created data b.minalign (results ++ []) (results.getD i 0) call :=
        Created.mono hcreated (hvalid.mono hlt.le) hsuffix le_rfl
      rwa [List.append_nil] at hmono
  obtain ⟨-, -, ⟨hfields, -⟩, ⟨slots, hslots⟩, hsizes⟩ := hresult k _ hk
  have hresolved : ∀ {o f}, (o, f) ∈ fields →
      (o, f.resolve results) ∈ resolveFields results fields := by
    intro o f hf
    exact List.mem_map_of_mem (f := fun f : ℕ × Field => (f.1, f.2.resolve results)) hf
  refine ⟨?_, ?_, ?_, ?_, ?_, ?_, ?_⟩
  · intro o size x d hf
    exact numberField_of_table hslots hsize (hresolved hf) (hfields _ hf).1.2.1
  · intro o i s hf hi
    obtain ⟨-, -, -, hstring⟩ := hresult i _ hi
    exact stringField_of_table hslots hsize (hresolved hf) hstring
  · intro o i numfields' fields' hf hi
    obtain ⟨hpos, hle, -, -⟩ := hresult i _ hi
    exact ⟨tableField_of_table hslots hsize (hresolved hf) hpos.ne' hle,
      unionField_of_table hslots hsize (hresolved hf) hpos.ne' hle⟩
  · intro o i refs hf hi
    obtain ⟨-, -, hvalid, hoffsets⟩ := hresult i _ hi
    obtain ⟨hlength, helements⟩ := vectorElement_of_table hslots hsize (hresolved hf) hoffsets
    rw [List.length_map] at hlength
    refine ⟨hlength, fun j r hj => helements j _ (by rw [List.getElem?_map, hj]; rfl) ?_⟩
    have hr : r < i := hvalid r (List.mem_of_getElem? hj)
    have hi' : i < calls.length := (List.getElem?_eq_some_iff.mp hi).1
    exact (hresult r _ (List.getElem?_eq_getElem (hr.trans hi'))).2.1
  · intro o size members hf
    obtain ⟨u, hu, hbb, hmembers⟩ := structField_of_table hslots hsize (hresolved hf)
    exact ⟨u, hu, hbb, fun j x hj =>
      hmembers j x hj ((hfields _ hf).1.2.2 x (List.mem_of_getElem? hj))⟩
  · intro o ho
    rcases Nat.lt_or_ge o numfields with hlt | hge
    · have hempty := hslots.empty o (by rwa [map_resolveFields_fst]) hlt
      exact offset_of_zero hslots.table hsize hempty
    · exact offset_beyond hslots.table hsize (by rwa [hslots.length])
  · intro o f k hf hoffset hne
    have haligned := aligned_of_table hslots hsize (hresolved hf) hoffset hne fun hpresent => by
      rw [resolve_size]
      exact (IsSize.dvd (Field.Valid.isSize (hfields _ hf).1) h.ready.aligned
        (hsizes _ hf hpresent)).trans hminalign
    rwa [resolve_size] at haligned

/-- The message is written when it fits. -/
theorem writeMessage_spec (calls : List Call) (root : ℕ) (hvalid : AllValid 0 calls)
    (hroot : ∃ numfields fields, calls[root]? = some (.table numfields fields))
    (hsize : (calls.map Call.cost).sum + 24 ≤ maxSize) :
    ∃ b data results, writeMessage calls root = .ok data ∧ Holding b results calls ∧
      b.bytes <:+ data ∧ data.length ≤ maxSize ∧ b.minalign ∣ data.length ∧
      getRoot data = some (tableAt data (results.getD root 0)) := by
  have hstart : Holding {} [] [] := by
    refine ⟨⟨rfl, rfl, isSize_one, Nat.zero_le _, by simp⟩, rfl, by simp, by simp, by simp⟩
  obtain ⟨results, b, hall, hholding, hbounded⟩ := createAll_spec calls hstart hvalid (by
    show 0 + _ ≤ maxSize
    omega)
  have hbounded' : b.offset ≤ 0 + (calls.map Call.cost).sum := hbounded
  rw [List.nil_append] at hholding
  obtain ⟨numfields, fields, hk⟩ := hroot
  have hlt : root < results.length := hholding.length ▸ (List.getElem?_eq_some_iff.mp hk).1
  have hrootLe : results.getD root 0 ≤ b.offset := by
    rw [List.getD_eq_getElem _ _ hlt]
    exact hholding.results_le _ (List.getElem_mem hlt)
  obtain ⟨b', hfinish, hfinished, hsuffix, hle, hdvd, hholds⟩ := finish_spec hholding.ready
    (hholding.tables _ _ (List.mem_of_getElem? hk)) hrootLe (by omega)
  have hlength : b'.bytes.length ≤ maxSize := by
    rw [FlatBufferBuilder.offset] at hle
    omega
  refine ⟨b, b'.bytes, results, ?_, hholding, hsuffix, hlength, hdvd, ?_⟩
  · exact (ok_bind hall).trans ((ok_bind hfinish).trans (if_pos hfinished))
  · have hread : getNumber b'.bytes 0 4 = some ((b'.offset : ℤ) - results.getD root 0) := by
      refine getNumber_of_holds hholds ?_ (by rw [FlatBufferBuilder.offset]; ring)
      exact inRange_distance hlength le_rfl (hrootLe.trans hsuffix.length_le)
    rw [getRoot, hread]
    rfl

end Message

end Motis.Android
