import Mathlib.Logic.Function.Iterate
import Motis.Lib.RandomAccess
import Motis.Lib.Slots

/-! `fws_multimap`: the values of all keys in one vector, built key by key.

    `finish_key` records where the values of the current key start and moves on to the next key;
    `finish_map` adds the end of the last one. A nested map counts its keys through the values of a
    base map: the key of `(outer, inner)` is the place of the value `inner` of the base key `outer`.

        data_    [ v v v | v | | v v ]
        index_     0       3  4  4     6 -/

namespace Motis
open Slots RandomAccess

/-- The values from `index_start` to `index_end`; the key of a nested entry is not initialised. -/
structure FwsMultimapEntry (T : Type) where
  data : List T
  indexStart : ℕ
  indexEnd : ℕ
  key : Option ℕ := none

def FwsMultimapEntry.values {T : Type} (e : FwsMultimapEntry T) : List T :=
  slice e.data e.indexStart (e.indexEnd - e.indexStart)

structure FwsMultimap (T : Type) where
  data : List T := []
  index : List ℕ := []
  currentStart : ℕ := 0
  complete : Bool := false
  deriving DecidableEq

/-! ### Iterators -/

/-- The iterator of `fws_multimap` and of `shared_idx_fws_multimap`. -/
structure FwsMultimapIterator (Map : Type) where
  map : Map
  index : UInt64

namespace FwsMultimapIterator

variable {Map : Type}

/-- An `int` added to a `std::size_t`. -/
def toSizeT (n : Int32) : UInt64 := UInt64.ofInt n.toInt

def addAssign (it : FwsMultimapIterator Map) (n : Int32) : FwsMultimapIterator Map :=
  { it with index := it.index + toSizeT n }

def subAssign (it : FwsMultimapIterator Map) (n : Int32) : FwsMultimapIterator Map :=
  { it with index := it.index - toSizeT n }

def increment (it : FwsMultimapIterator Map) : FwsMultimapIterator Map :=
  { it with index := it.index + 1 }

def decrement (it : FwsMultimapIterator Map) : FwsMultimapIterator Map :=
  { it with index := it.index - 1 }

def add (it : FwsMultimapIterator Map) (n : Int32) : FwsMultimapIterator Map :=
  ⟨it.map, it.index + toSizeT n⟩

def sub (it : FwsMultimapIterator Map) (n : Int32) : FwsMultimapIterator Map :=
  ⟨it.map, it.index + toSizeT n⟩

instance : RandomAccess.Iterator (FwsMultimapIterator Map) where
  increment := increment
  decrement := decrement
  addAssign := addAssign
  subAssign := subAssign
  add := add
  sub := sub
  position it := it.index.toNat

end FwsMultimapIterator

/-! ### Building -/

namespace FwsMultimap

variable {T : Type}

def pushBack (m : FwsMultimap T) (val : T) : FwsMultimap T := { m with data := m.data ++ [val] }

/-- The value is constructed in its slot. -/
def emplaceBack (m : FwsMultimap T) (args : T) : FwsMultimap T :=
  { m with data := m.data ++ [args] }

def currentKey (m : FwsMultimap T) : ℕ := m.index.length

def finishKey (m : FwsMultimap T) : FwsMultimap T :=
  { m with index := m.index ++ [m.currentStart], currentStart := m.data.length }

/-- `while (current_key() < dest)`: every turn finishes one key. -/
def skipToKey (m : FwsMultimap T) (dest : ℕ) : FwsMultimap T :=
  finishKey^[dest - m.currentKey] m

def finishMap (m : FwsMultimap T) : FwsMultimap T :=
  { m with index := m.index ++ [m.data.length], complete := true }

/-- `operator[]` -/
def operatorIndex (m : FwsMultimap T) (index : ℕ) : FwsMultimapEntry T :=
  ⟨m.data, m.index.getD index 0, m.index.getD (index + 1) 0, some index⟩

def begin (m : FwsMultimap T) : FwsMultimapIterator (FwsMultimap T) := ⟨m, 0⟩

def end_ (m : FwsMultimap T) : FwsMultimapIterator (FwsMultimap T) :=
  ⟨m, UInt64.ofNat m.index.length - 1⟩

/-- `for (; it != last; ++it)`, with the entries `*it`. -/
def enumerate (last : FwsMultimapIterator (FwsMultimap T)) :
    ℕ → FwsMultimapIterator (FwsMultimap T) → Option (List (FwsMultimapEntry T))
  | 0, _ => none
  | fuel + 1, it =>
    if it.index = last.index then some []
    else (enumerate last fuel it.increment).map (it.map.operatorIndex it.index.toNat :: ·)

end FwsMultimap

/-- The calls that build a map. -/
inductive BuildCall (T : Type) where
  | pushBack (val : T)
  | emplaceBack (args : T)
  | finishKey
  | skipToKey (dest : ℕ)

namespace FwsMultimap

variable {T : Type}

def call (m : FwsMultimap T) : BuildCall T → FwsMultimap T
  | .pushBack val => m.pushBack val
  | .emplaceBack args => m.emplaceBack args
  | .finishKey => m.finishKey
  | .skipToKey dest => m.skipToKey dest

def build (calls : List (BuildCall T)) : FwsMultimap T := calls.foldl call {}

end FwsMultimap

/-- `nested_fws_multimap` has the members of `fws_multimap` and a base index. -/
structure NestedFwsMultimap (T : Type) extends FwsMultimap T where
  baseIndex : List ℕ

inductive NestedCall (T : Type) where
  | pushBack (val : T)
  | emplaceBack (args : T)
  | finishNestedKey
  | finishBaseKey

namespace NestedFwsMultimap

variable {T : Type}

def pushBack (m : NestedFwsMultimap T) (val : T) : NestedFwsMultimap T :=
  { m with toFwsMultimap := m.toFwsMultimap.pushBack val }

def emplaceBack (m : NestedFwsMultimap T) (args : T) : NestedFwsMultimap T :=
  { m with toFwsMultimap := m.toFwsMultimap.emplaceBack args }

def finishNestedKey (m : NestedFwsMultimap T) : NestedFwsMultimap T :=
  { m with toFwsMultimap := m.toFwsMultimap.finishKey }

def finishBaseKey (m : NestedFwsMultimap T) : NestedFwsMultimap T := m

def finishMap (m : NestedFwsMultimap T) : NestedFwsMultimap T :=
  { m with toFwsMultimap := m.toFwsMultimap.finishMap }

/-- `at` -/
def at_ (m : NestedFwsMultimap T) (outerIndex innerIndex : ℕ) : FwsMultimapEntry T :=
  { data := m.data
    indexStart := m.index.getD (m.baseIndex.getD outerIndex 0 + innerIndex) 0
    indexEnd := m.index.getD (m.baseIndex.getD outerIndex 0 + innerIndex + 1) 0 }

def call (m : NestedFwsMultimap T) : NestedCall T → NestedFwsMultimap T
  | .pushBack val => m.pushBack val
  | .emplaceBack args => m.emplaceBack args
  | .finishNestedKey => m.finishNestedKey
  | .finishBaseKey => m.finishBaseKey

def build (baseIndex : List ℕ) (calls : List (NestedCall T)) : NestedFwsMultimap T :=
  calls.foldl call { baseIndex }

end NestedFwsMultimap

end Motis
