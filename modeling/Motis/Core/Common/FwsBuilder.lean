import Mathlib.Algebra.GroupWithZero.Nat
import Mathlib.Algebra.Order.Group.Nat
import Mathlib.Order.Lattice.Nat
import Motis.Core.Common.FwsMultimap

/-! What a builder of `fws_multimap` has put under each key.

    `Holds` reads the members of an unfinished map as the groups of the finished keys and the values
    of the current key: a push extends the last group, `finish_key` closes it.

        push v    g₀ g₁ … gₙ₋₁ | last         ──▶  g₀ g₁ … gₙ₋₁ | last v
        finish    g₀ g₁ … gₙ₋₁ | last         ──▶  g₀ g₁ … gₙ₋₁ last | -/

namespace Motis
open Slots RandomAccess

variable {T : Type}

/-- The value that the call pushes. -/
def BuildCall.values : BuildCall T → List T
  | .pushBack val => [val]
  | .emplaceBack args => [args]
  | .finishKey | .skipToKey _ => []

def NestedCall.values : NestedCall T → List T
  | .pushBack val => [val]
  | .emplaceBack args => [args]
  | .finishNestedKey | .finishBaseKey => []

namespace FwsMultimap

/-- The values that are pushed while `current_key()` is `key`. -/
def pushedAt (key : ℕ) : FwsMultimap T → List (BuildCall T) → List T
  | _, [] => []
  | m, c :: cs => (if m.currentKey = key then c.values else []) ++ pushedAt key (m.call c) cs

/-- Where each group starts. -/
def starts (gs : List (List T)) : List ℕ :=
  (List.range gs.length).map fun k => (gs.take k).flatten.length

/-- The finished keys have the groups `gs`, the current one has the values `last`. -/
structure Holds (m : FwsMultimap T) (gs : List (List T)) (last : List T) : Prop where
  data : m.data = gs.flatten ++ last
  index : m.index = starts gs
  currentStart : m.currentStart = gs.flatten.length

theorem holds_empty : Holds ({} : FwsMultimap T) [] [] := ⟨rfl, rfl, rfl⟩

section Holds

variable {m : FwsMultimap T} {gs : List (List T)} {last : List T}

theorem Holds.currentKey_eq (h : Holds m gs last) : m.currentKey = gs.length := by
  rw [currentKey, h.index, starts, List.length_map, List.length_range]

theorem Holds.push (h : Holds m gs last) (val : T) : Holds (m.pushBack val) gs (last ++ [val]) where
  data := by rw [pushBack, h.data, List.append_assoc]
  index := h.index
  currentStart := h.currentStart

theorem starts_concat (gs : List (List T)) (g : List T) :
    starts (gs ++ [g]) = starts gs ++ [gs.flatten.length] := by
  rw [starts, List.length_append, List.length_singleton, List.range_succ, List.map_append, starts]
  congr 1
  · refine List.map_congr_left fun k hk => ?_
    rw [List.take_append_of_le_length (List.mem_range.mp hk).le]
  · rw [List.map_singleton, List.take_left]

theorem Holds.finish (h : Holds m gs last) : Holds m.finishKey (gs ++ [last]) [] where
  data := by rw [finishKey, h.data, List.flatten_append, List.flatten_singleton, List.append_nil]
  index := by rw [finishKey, h.index, h.currentStart, starts_concat]
  currentStart := by rw [finishKey, h.data, List.flatten_append, List.flatten_singleton]

/-- The values under a key: the group of a finished one, or what the current one has so far. -/
def valuesAt (gs : List (List T)) (last : List T) (key : ℕ) : List T :=
  (gs ++ [last]).getD key []

theorem valuesAt_push (gs : List (List T)) (last vals : List T) (key : ℕ) :
    valuesAt gs (last ++ vals) key =
      valuesAt gs last key ++ if gs.length = key then vals else [] := by
  rw [valuesAt, valuesAt, List.getD_eq_getElem?_getD, List.getD_eq_getElem?_getD,
    List.getElem?_append, List.getElem?_append]
  rcases Nat.lt_trichotomy key gs.length with hlt | heq | hgt
  · rw [if_pos hlt, if_pos hlt, if_neg (by omega), List.append_nil]
  · subst heq
    rw [if_neg (Nat.lt_irrefl _), if_neg (Nat.lt_irrefl _), if_pos rfl, Nat.sub_self]
    rfl
  · rw [if_neg (by omega), if_neg (by omega), if_neg (by omega),
      List.getElem?_eq_none (by simp; omega), List.getElem?_eq_none (by simp; omega)]
    rfl

/-- A key that nothing was pushed for has no values yet. -/
theorem valuesAt_finish (gs : List (List T)) (last : List T) (key : ℕ) :
    valuesAt (gs ++ [last]) [] key = valuesAt gs last key := by
  rw [valuesAt, valuesAt, List.getD_eq_getElem?_getD, List.getD_eq_getElem?_getD,
    List.getElem?_append]
  split
  · rfl
  · next h =>
    rw [List.getElem?_eq_none (Nat.not_lt.mp h), List.getElem?_singleton]
    split <;> rfl

theorem Holds.skip (h : Holds m gs last) : ∀ n : ℕ, ∃ gs' last',
    Holds (finishKey^[n] m) gs' last' ∧ ∀ key, valuesAt gs' last' key = valuesAt gs last key
  | 0 => ⟨gs, last, h, fun _ => rfl⟩
  | n + 1 => by
    obtain ⟨gs', last', h', hvalues⟩ := h.skip n
    refine ⟨gs' ++ [last'], [], ?_, fun key => ?_⟩
    · rw [Function.iterate_succ_apply']
      exact h'.finish
    · rw [valuesAt_finish, hvalues]

/-- One call adds its value under the current key. -/
theorem Holds.call (h : Holds m gs last) (c : BuildCall T) : ∃ gs' last',
    Holds (m.call c) gs' last' ∧ ∀ key, valuesAt gs' last' key =
      valuesAt gs last key ++ if m.currentKey = key then c.values else [] := by
  cases c with
  | pushBack val =>
    refine ⟨gs, last ++ [val], h.push val, fun key => ?_⟩
    rw [valuesAt_push, h.currentKey_eq]
    rfl
  | emplaceBack args =>
    refine ⟨gs, last ++ [args], h.push args, fun key => ?_⟩
    rw [valuesAt_push, h.currentKey_eq]
    rfl
  | finishKey =>
    refine ⟨gs ++ [last], [], h.finish, fun key => ?_⟩
    rw [valuesAt_finish, BuildCall.values, ite_self, List.append_nil]
  | skipToKey dest =>
    obtain ⟨gs', last', h', hvalues⟩ := h.skip (dest - m.currentKey)
    refine ⟨gs', last', h', fun key => ?_⟩
    rw [hvalues, BuildCall.values, ite_self, List.append_nil]

theorem Holds.calls : ∀ (cs : List (BuildCall T)) {m : FwsMultimap T} {gs : List (List T)}
    {last : List T}, Holds m gs last → ∃ gs' last', Holds (cs.foldl FwsMultimap.call m) gs' last' ∧
      ∀ key, valuesAt gs' last' key = valuesAt gs last key ++ pushedAt key m cs
  | [], _, gs, last, h => ⟨gs, last, h, fun _ => (List.append_nil _).symm⟩
  | c :: cs, _, _, _, h => by
    obtain ⟨gs₁, last₁, h₁, hvalues₁⟩ := h.call c
    obtain ⟨gs₂, last₂, h₂, hvalues₂⟩ := Holds.calls cs h₁
    refine ⟨gs₂, last₂, h₂, fun key => ?_⟩
    rw [hvalues₂, hvalues₁, pushedAt, List.append_assoc]

end Holds

/-- The groups of a map whose last key is finished. -/
theorem build_holds (cs : List (BuildCall T))
    (hfinished : pushedAt (build cs).currentKey {} cs = []) :
    ∃ gs, Holds (build cs) gs [] ∧
      ∀ (k : ℕ) (hk : k < gs.length), gs[k] = pushedAt k {} cs := by
  obtain ⟨gs, last, h, hvalues⟩ := Holds.calls cs holds_empty
  rw [← build] at h
  have hempty : ∀ key, valuesAt ([] : List (List T)) [] key = [] := by
    intro key
    rw [valuesAt, List.nil_append, List.getD_eq_getElem?_getD, List.getElem?_singleton]
    split <;> rfl
  have hlast : last = [] := by
    have hcurrent := hvalues (build cs).currentKey
    rw [hfinished, hempty, h.currentKey_eq] at hcurrent
    simpa [valuesAt] using hcurrent
  subst hlast
  refine ⟨gs, h, fun k hk => ?_⟩
  have hk' := hvalues k
  rw [hempty, List.nil_append, valuesAt, List.getD_eq_getElem?_getD,
    List.getElem?_append_left hk, List.getElem?_eq_getElem hk, Option.getD_some] at hk'
  exact hk'

section Finished

variable {m : FwsMultimap T} {gs : List (List T)}

/-- The offsets of the finished map: the starts of all groups, and the end of the last one. -/
theorem Holds.offset (h : Holds m gs []) {k : ℕ} (hk : k ≤ gs.length) :
    m.finishMap.index.getD k 0 = (gs.take k).flatten.length := by
  have hindex : m.finishMap.index =
      (List.range (gs.length + 1)).map fun k => (gs.take k).flatten.length := by
    rw [finishMap, h.index, h.data, List.append_nil, List.range_succ, List.map_append,
      List.map_singleton, List.take_length, starts]
  rw [hindex, List.getD_eq_getElem?_getD, List.getElem?_map,
    List.getElem?_range (Nat.lt_succ_of_le hk)]
  rfl

theorem Holds.slice_offset (h : Holds m gs []) {k : ℕ} (hk : k < gs.length) :
    slice m.data (m.finishMap.index.getD k 0)
      (m.finishMap.index.getD (k + 1) 0 - m.finishMap.index.getD k 0) = gs[k] := by
  have hnext : (gs.take (k + 1)).flatten.length = (gs.take k).flatten.length + gs[k].length := by
    rw [List.take_succ_eq_append_getElem hk, List.flatten_append, List.flatten_singleton,
      List.length_append]
  rw [h.offset hk.le, h.offset hk, hnext, Nat.add_sub_cancel_left, h.data, List.append_nil]
  exact slice_flatten hk

end Finished

/-! ### Enumeration -/

theorem increment_toNat (it : FwsMultimapIterator (FwsMultimap T))
    (h : it.index.toNat + 1 < 2 ^ 64) : it.increment.index.toNat = it.index.toNat + 1 := by
  rw [FwsMultimapIterator.increment, UInt64.toNat_add]
  exact Nat.mod_eq_of_lt h

theorem end_toNat {m : FwsMultimap T} (hsize : m.currentKey < 2 ^ 64) :
    m.finishMap.end_.index.toNat = m.currentKey := by
  have hlength : m.finishMap.index.length = m.currentKey + 1 := by
    rw [finishMap, List.length_append, List.length_singleton, currentKey]
  rw [end_, hlength, UInt64.ofNat_add]
  change (UInt64.ofNat m.currentKey + 1 - 1).toNat = _
  rw [UInt64.add_sub_cancel]
  exact UInt64.toNat_ofNat_of_lt' hsize

theorem enumerate_eq (m : FwsMultimap T) (last : FwsMultimapIterator (FwsMultimap T)) :
    ∀ (n : ℕ) (it : FwsMultimapIterator (FwsMultimap T)), it.map = m →
      it.index.toNat + n = last.index.toNat →
      enumerate last (n + 1) it =
        some ((List.range' it.index.toNat n).map m.operatorIndex)
  | 0, it, _, hindex => by
    rw [enumerate, if_pos (UInt64.toNat_inj.mp hindex)]
    rfl
  | n + 1, it, hmap, hindex => by
    have hne : it.index ≠ last.index := fun heq => by
      rw [heq] at hindex
      omega
    have hlt := last.index.toNat_lt
    have hnext := increment_toNat it (by omega)
    have htail := enumerate_eq m last n it.increment hmap (by
      rw [hnext, ← hindex]
      omega)
    rw [enumerate, if_neg hne, htail, hnext, hmap, List.range'_succ]
    rfl

end FwsMultimap

/-! ### Nested maps -/

namespace NestedFwsMultimap

/-- The values that are pushed while `current_key()` is `key`. -/
def pushedAt (key : ℕ) : NestedFwsMultimap T → List (NestedCall T) → List T
  | _, [] => []
  | m, c :: cs => (if m.currentKey = key then c.values else []) ++ pushedAt key (m.call c) cs

end NestedFwsMultimap

/-- The call on the members of `fws_multimap`; `finish_base_key` does nothing. -/
def NestedCall.toBuildCalls : NestedCall T → List (BuildCall T)
  | .pushBack val => [.pushBack val]
  | .emplaceBack args => [.emplaceBack args]
  | .finishNestedKey => [.finishKey]
  | .finishBaseKey => []

namespace NestedFwsMultimap

theorem calls_eq : ∀ (cs : List (NestedCall T)) (m : NestedFwsMultimap T),
    (cs.foldl call m).baseIndex = m.baseIndex ∧
      (cs.foldl call m).toFwsMultimap =
        (cs.flatMap NestedCall.toBuildCalls).foldl FwsMultimap.call m.toFwsMultimap ∧
      ∀ key, pushedAt key m cs =
        FwsMultimap.pushedAt key m.toFwsMultimap (cs.flatMap NestedCall.toBuildCalls)
  | [], _ => ⟨rfl, rfl, fun _ => rfl⟩
  | c :: cs, m => by
    obtain ⟨hbase, hcalls, hpushed⟩ := calls_eq cs (m.call c)
    rw [List.foldl_cons, List.flatMap_cons, List.foldl_append]
    cases c with
    | pushBack val =>
      refine ⟨hbase, hcalls, fun key => ?_⟩
      rw [pushedAt, hpushed]
      rfl
    | emplaceBack args =>
      refine ⟨hbase, hcalls, fun key => ?_⟩
      rw [pushedAt, hpushed]
      rfl
    | finishNestedKey =>
      refine ⟨hbase, hcalls, fun key => ?_⟩
      rw [pushedAt, hpushed]
      rfl
    | finishBaseKey =>
      refine ⟨hbase, hcalls, fun key => ?_⟩
      rw [pushedAt, hpushed, NestedCall.values, ite_self]
      rfl

end NestedFwsMultimap

/-! ### Finished maps -/

/-- CORRECT: under every finished key are the values that were pushed for it, and `++` visits these
    keys once, in order. In a nested map the same holds, where the keys of `(outer, inner)` count
    the values of the base map that were pushed before the key `outer`. -/
theorem finished_maps {B : Type} (cs : List (BuildCall B))
    (hfinished : FwsMultimap.pushedAt (FwsMultimap.build cs).currentKey {} cs = [])
    (hsize : (FwsMultimap.build cs).currentKey < 2 ^ 64) :
    let m := (FwsMultimap.build cs).finishMap
    (∀ key < (FwsMultimap.build cs).currentKey,
      (m.operatorIndex key).values = FwsMultimap.pushedAt key {} cs) ∧
    FwsMultimap.enumerate m.end_ ((FwsMultimap.build cs).currentKey + 1) m.begin =
      some ((List.range (FwsMultimap.build cs).currentKey).map m.operatorIndex) ∧
    ∀ ns : List (NestedCall T),
      let nested := NestedFwsMultimap.build m.index ns
      NestedFwsMultimap.pushedAt nested.currentKey { baseIndex := m.index } ns = [] →
      ∀ outer < (FwsMultimap.build cs).currentKey, ∀ inner,
        m.index.getD outer 0 + inner < nested.currentKey →
          (nested.finishMap.at_ outer inner).values =
            NestedFwsMultimap.pushedAt
              (((List.range outer).map fun k => (FwsMultimap.pushedAt k {} cs).length).sum + inner)
              { baseIndex := m.index } ns := by
  obtain ⟨gs, h, hgs⟩ := FwsMultimap.build_holds cs hfinished
  intro m
  refine ⟨fun key hkey => ?_, ?_, fun ns => ?_⟩
  · rw [h.currentKey_eq] at hkey
    rw [← hgs key hkey, ← h.slice_offset hkey]
    rfl
  · have hlast : m.end_.index.toNat = (FwsMultimap.build cs).currentKey :=
      FwsMultimap.end_toNat hsize
    have henumerate := FwsMultimap.enumerate_eq m m.end_
      (FwsMultimap.build cs).currentKey m.begin rfl (by rw [hlast]; exact Nat.zero_add _)
    rw [henumerate, List.range_eq_range']
    rfl
  · intro nested hnested outer houter inner hinner
    obtain ⟨hbase, hcalls, hpushed⟩ :=
      NestedFwsMultimap.calls_eq ns { baseIndex := m.index }
    have hbase : nested.baseIndex = m.index := hbase
    have hcalls : nested.toFwsMultimap =
        FwsMultimap.build (ns.flatMap NestedCall.toBuildCalls) := hcalls
    rw [h.currentKey_eq] at houter
    have hoffset : m.index.getD outer 0 = ((List.range outer).map fun k =>
        (FwsMultimap.pushedAt k {} cs).length).sum := by
      rw [h.offset houter.le, List.length_flatten]
      congr 1
      refine List.ext_getElem (by simp; omega) fun k _ hk => ?_
      have hk : k < outer := by simpa using hk
      rw [List.getElem_map, List.getElem_take, List.getElem_map, List.getElem_range,
        hgs k (by omega)]
    rw [hpushed, hcalls] at hnested
    obtain ⟨gs', h', hgs'⟩ := FwsMultimap.build_holds _ hnested
    rw [hcalls, h'.currentKey_eq] at hinner
    rw [← hoffset, hpushed, ← hgs' _ hinner, ← h'.slice_offset hinner, ← hcalls, ← hbase]
    rfl

/-- A base map with an empty key, and a nested one with an empty group. -/
theorem finished_maps_empty_key :
    ((FwsMultimap.build [.pushBack 1, .emplaceBack 2, .finishKey, .skipToKey 2, .pushBack 4,
      .finishKey]).finishMap.operatorIndex 2).values = [4] ∧
    ((NestedFwsMultimap.build [0, 2, 2, 3] [.pushBack 11, .finishNestedKey, .finishNestedKey,
      .finishBaseKey, .pushBack 41, .finishNestedKey]).finishMap.at_ 2 0).values = [41] := by
  obtain ⟨hvalues, -, hnested⟩ := finished_maps (T := ℕ) [.pushBack 1, .emplaceBack 2, .finishKey,
    .skipToKey 2, .pushBack 4, .finishKey] (by decide) (by decide)
  refine ⟨hvalues 2 (by decide), ?_⟩
  exact hnested [.pushBack 11, .finishNestedKey, .finishNestedKey, .finishBaseKey, .pushBack 41,
    .finishNestedKey] (by decide) 2 (by decide) 0 (by decide)

end Motis
