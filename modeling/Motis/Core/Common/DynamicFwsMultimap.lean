import Mathlib.Algebra.GroupWithZero.Nat
import Mathlib.Data.Nat.Log
import Motis.Lib.Slots

/-! `dynamic_fws_multimap_base`: many buckets in one flat vector.

    The buckets of the map live in `data_`; `index_` records for every bucket where its block
    starts, how many entries it holds and how many slots it owns. A block always has a power of two
    slots. A full bucket moves to a block of the next size: to a free block recorded for that order,
    else by growing in place at the end of `data_`, else to a new block at the end; the block it
    leaves goes to the free list of its order. Derived containers hook into a move
    (`entries_moved`).

        index_   0:(b₀,s₀,c₀)   1:(b₁,s₁,c₁)   2:(b₂,s₂,c₂)   …
        data_    [ bucket 1 ][ free, order 1 ][ bucket 0      ][ bucket 2 ] …

    `SizeType` is `std::uint32_t`, the only instantiation of the repository. The sums that can leave
    its range (the new number of buckets, the new number of slots) wrap as in the source; every
    other sum is bounded by the number of slots. The vectors and `cista::next_power_of_two` are the
    standard ones. -/

namespace Motis.DynamicFwsMultimap
open Slots

/-- `SizeType` holds the values below `2 ^ 32`. -/
def sizeTypeRange : ℕ := 2 ^ 32

/-- A sum stored in a `SizeType`. -/
def toSizeType (n : ℕ) : ℕ := n % sizeTypeRange

/-- Template argument `Log2MaxEntriesPerBucket`. -/
def log2MaxEntriesPerBucket : ℕ := 20

def maxEntriesPerBucket : ℕ := 2 ^ log2MaxEntriesPerBucket

/-- The exceptions of the container. -/
inductive Error where
  | tooManyEntries (newCapacity : ℕ)
  | orderNotFound (size : ℕ)
  | outOfRange
  deriving DecidableEq, Repr

def Error.what : Error → String
  | .tooManyEntries n => "dynamic_fws_multimap: too many entries in a bucket: " ++ toString n
  | .orderNotFound n => "dynamic_fws_multimap::get_order: not found for " ++ toString n
  | .outOfRange => "dynamic_fws_multimap::at() out of range"

structure IndexType where
  begin : ℕ := 0
  size : ℕ := 0
  capacity : ℕ := 0
  deriving DecidableEq, Repr, Inhabited

/-- The members of `dynamic_fws_multimap_base`, and those its derived class adds. -/
structure Multimap (T D : Type) where
  index : List IndexType := []
  data : List T := []
  freeBuckets : List (List IndexType) := List.replicate (log2MaxEntriesPerBucket + 1) []
  elementCount : ℕ := 0
  derived : D
  deriving DecidableEq

/-- What the derived class does when the entries of a bucket have been moved: bucket, old first
    slot, new first slot, number of entries. -/
class EntriesMoved (T D : Type) where
  entriesMoved : Multimap T D → ℕ → ℕ → ℕ → ℕ → Except Error D

/-- The plain `dynamic_fws_multimap` adds no member and its `entries_moved` is empty. -/
instance (T : Type) : EntriesMoved T Unit := ⟨fun _ _ _ _ _ => .ok ()⟩

/-- `cista::next_power_of_two`. -/
def nextPowerOfTwo (n : ℕ) : ℕ := 2 ^ Nat.clog 2 n

/-- The first order up to the largest whose block size is `size`. -/
def getOrder (size : ℕ) : Except Error ℕ :=
  match (List.range (log2MaxEntriesPerBucket + 1)).find? (fun order => 2 ^ order == size) with
  | some order => .ok order
  | none => .error (.orderNotFound size)

namespace Multimap

variable {T D : Type}

/-- `index_[i]`. -/
def idx (m : Multimap T D) (i : ℕ) : IndexType := m.index.getD i {}

def setIdx (m : Multimap T D) (i : ℕ) (e : IndexType) : Multimap T D :=
  { m with index := m.index.set i e }

/-- The entries of bucket `i`: the slots from `begin()` to `end()`. -/
def bucket (m : Multimap T D) (i : ℕ) : List T := slice m.data (m.idx i).begin (m.idx i).size

/-- `operator[]`: a missing bucket and all buckets before it are created empty. -/
def operatorIndex (m : Multimap T D) (index : ℕ) : Multimap T D :=
  if index ≥ m.index.length then
    { m with index := resize m.index (toSizeType (index + 1)) {} }
  else m

/-- `at`: the bucket must exist. -/
def checkedAt (m : Multimap T D) (index : ℕ) : Except Error Unit :=
  if index ≥ m.index.length then .error .outOfRange else .ok ()

def getFreeBucket (m : Multimap T D) (requestedOrder : ℕ) : Multimap T D × Option IndexType :=
  let vec := m.freeBuckets.getD requestedOrder []
  match vec.getLast? with
  | some entry =>
    ({ m with freeBuckets := m.freeBuckets.set requestedOrder vec.dropLast }, some entry)
  | none => (m, none)

def releaseBucket (m : Multimap T D) (bucket : IndexType) : Except Error (Multimap T D) :=
  if bucket.capacity ≠ 0 then do
    let order ← getOrder bucket.capacity
    let vec := m.freeBuckets.getD order []
    pure { m with freeBuckets := m.freeBuckets.set order (vec ++ [{ bucket with size := 0 }]) }
  else pure m

variable [Inhabited T] [EntriesMoved T D]

/-- `data_.resize(n)`. -/
def resizeData (m : Multimap T D) (n : ℕ) : Multimap T D :=
  { m with data := resize m.data (toSizeType n) default }

def moveEntries (m : Multimap T D) (mapIndex oldDataIndex newDataIndex count : ℕ) :
    Except Error (Multimap T D) :=
  if count = 0 then pure m
  else do
    let m := { m with data := overwrite m.data newDataIndex (slice m.data oldDataIndex count) }
    let d ← EntriesMoved.entriesMoved m mapIndex oldDataIndex newDataIndex count
    pure { m with derived := d }

def growBucket (m : Multimap T D) (mapIndex requestedCapacity : ℕ) :
    Except Error (Multimap T D) := do
  let newCapacity := nextPowerOfTwo requestedCapacity
  let newOrder ← getOrder newCapacity
  if log2MaxEntriesPerBucket < newOrder then throw (.tooManyEntries newCapacity)
  let oldBucket := m.idx mapIndex
  match m.getFreeBucket newOrder with
  | (m, some freeBucket) =>
    -- reuse free bucket
    let m ← if oldBucket.capacity ≠ 0 then do
        let m ← m.moveEntries mapIndex oldBucket.begin freeBucket.begin oldBucket.size
        m.releaseBucket oldBucket
      else pure m
    pure (m.setIdx mapIndex
      { oldBucket with begin := freeBucket.begin, capacity := freeBucket.capacity })
  | (m, none) =>
    if oldBucket.begin + oldBucket.capacity = m.data.length then
      -- last bucket -> resize
      let additionalCapacity := newCapacity - oldBucket.capacity
      let m := m.resizeData (m.data.length + additionalCapacity)
      pure (m.setIdx mapIndex { oldBucket with capacity := newCapacity })
    else
      -- allocate new bucket at the end
      let newBegin := m.data.length
      let m := m.resizeData (m.data.length + newCapacity)
      let m ← m.moveEntries mapIndex oldBucket.begin newBegin oldBucket.size
      let m := m.setIdx mapIndex { oldBucket with begin := newBegin, capacity := newCapacity }
      m.releaseBucket oldBucket

/-- The new entry's slot, after growing a full bucket. -/
def insertNewEntry (m : Multimap T D) (mapIndex : ℕ) : Except Error (Multimap T D × ℕ) := do
  let m ← if (m.idx mapIndex).size = (m.idx mapIndex).capacity then
      m.growBucket mapIndex ((m.idx mapIndex).capacity + 1)
    else pure m
  let idx := m.idx mapIndex
  pure (m.setIdx mapIndex { idx with size := idx.size + 1 }, idx.begin + idx.size)

def pushBackEntry (m : Multimap T D) (mapIndex : ℕ) (val : T) :
    Except Error (Multimap T D × ℕ) := do
  let (m, dataIndex) ← m.insertNewEntry mapIndex
  pure ({ m with data := overwrite m.data dataIndex [val],
                 elementCount := m.elementCount + 1 }, dataIndex)

/-- The entry is constructed in its slot. -/
def emplaceBackEntry (m : Multimap T D) (mapIndex : ℕ) (args : T) :
    Except Error (Multimap T D × ℕ) := do
  let (m, dataIndex) ← m.insertNewEntry mapIndex
  pure ({ m with data := overwrite m.data dataIndex [args],
                 elementCount := m.elementCount + 1 }, dataIndex)

def reserve (m : Multimap T D) (i newSize : ℕ) : Except Error (Multimap T D) :=
  if newSize > (m.idx i).capacity then m.growBucket i newSize else pure m

def resizeBucket (m : Multimap T D) (i newSize : ℕ) (init : T) : Except Error (Multimap T D) := do
  let oldSize := (m.idx i).size
  let m ← m.reserve i newSize
  let idx := m.idx i
  let m :=
    if newSize < oldSize then { m with elementCount := m.elementCount - (oldSize - newSize) }
    else if newSize > oldSize then
      { m with
        data := overwrite m.data (idx.begin + oldSize) (List.replicate (newSize - oldSize) init)
        elementCount := m.elementCount + (newSize - oldSize) }
    else m
  pure (m.setIdx i { idx with size := newSize })

def popBack (m : Multimap T D) (i : ℕ) : Except Error (Multimap T D) :=
  if (m.idx i).size ≠ 0 then m.resizeBucket i ((m.idx i).size - 1) default else pure m

/-- Shift the entries from `pos` on by one slot; the slot that becomes free is returned. -/
def prepareInsert (m : Multimap T D) (i pos : ℕ) : Except Error (Multimap T D × ℕ) := do
  let m ← m.reserve i ((m.idx i).size + 1)
  let idx := m.idx i
  let it := idx.begin + pos
  pure ({ m with
          data := overwrite m.data (it + 1) (slice m.data it (idx.size - pos))
          index := m.index.set i { idx with size := idx.size + 1 }
          elementCount := m.elementCount + 1 }, it)

def insert (m : Multimap T D) (i pos : ℕ) (val : T) : Except Error (Multimap T D) := do
  let (m, slot) ← m.prepareInsert i pos
  pure { m with data := overwrite m.data slot [val] }

omit [Inhabited T] [EntriesMoved T D] in
/-- `clear`: the block stays with the bucket. -/
def clear (m : Multimap T D) (i : ℕ) : Multimap T D :=
  { m with
    elementCount := m.elementCount - (m.idx i).size
    index := m.index.set i { m.idx i with size := 0 } }

omit [Inhabited T] [EntriesMoved T D] in
/-- `erase(pos)`, with the position of the iterator it returns. -/
def erase (m : Multimap T D) (i pos : ℕ) : Multimap T D × ℕ :=
  let idx := m.idx i
  let last := idx.size - 1
  -- while (pos < last): exchange with the next entry
  let m := { m with
    data := swapLoop m.data (idx.begin + pos) (last - pos)
    index := m.index.set i { idx with size := idx.size - 1 }
    elementCount := m.elementCount - 1 }
  (m, if pos < (m.idx i).size then pos else (m.idx i).size)

omit [Inhabited T] [EntriesMoved T D] in
/-- `erase(first, last)`, with the position of the iterator it returns. -/
def eraseRange (m : Multimap T D) (i first last : ℕ) : Multimap T D × ℕ :=
  let idx := m.idx i
  let m := if first ≠ last then
      let newEnd := first + (idx.size - last)
      let count := idx.size - newEnd
      { m with
        data := overwrite m.data (idx.begin + first)
          (slice m.data (idx.begin + last) (idx.size - last))
        index := m.index.set i { idx with size := idx.size - count }
        elementCount := m.elementCount - count }
    else m
  (m, (m.idx i).size)

end Multimap

/-- The calls on a bucket `mm[i]`; `create` is `mm[i]` alone. -/
inductive Op (T : Type) where
  | create (i : ℕ)
  | pushBack (i : ℕ) (val : T)
  | emplaceBack (i : ℕ) (args : T)
  | insert (i pos : ℕ) (val : T)
  | reserve (i newSize : ℕ)
  | resize (i newSize : ℕ) (init : T)
  | popBack (i : ℕ)
  | clear (i : ℕ)
  | erase (i pos : ℕ)
  | eraseRange (i first last : ℕ)

/-- The bucket a call is made on. -/
def Op.bucket {T : Type} : Op T → ℕ
  | .create i | .pushBack i _ | .emplaceBack i _ | .insert i _ _ | .reserve i _ | .resize i _ _
  | .popBack i | .clear i | .erase i _ | .eraseRange i _ _ => i

variable {T D : Type} [Inhabited T] [EntriesMoved T D]

/-- The method a call names, on a bucket that exists. -/
def Op.apply (m : Multimap T D) : Op T → Except Error (Multimap T D)
  | .create _ => pure m
  | .pushBack i val => do pure (← m.pushBackEntry i val).1
  | .emplaceBack i args => do pure (← m.emplaceBackEntry i args).1
  | .insert i pos val => m.insert i pos val
  | .reserve i newSize => m.reserve i newSize
  | .resize i newSize init => m.resizeBucket i newSize init
  | .popBack i => m.popBack i
  | .clear i => pure (m.clear i)
  | .erase i pos => pure (m.erase i pos).1
  | .eraseRange i first last => pure (m.eraseRange i first last).1

/-- One call `mm[i].method(..)`: `operator[]` first, then the method. -/
def step (m : Multimap T D) (op : Op T) : Except Error (Multimap T D) :=
  op.apply (m.operatorIndex op.bucket)

/-- The state after a call, also after one that throws: a growth throws before it changes anything,
    and it is the first thing a call on the bucket does. -/
def exec (m : Multimap T D) (op : Op T) : Multimap T D :=
  match step m op with
  | .ok m' => m'
  | .error _ => m.operatorIndex op.bucket

/-- The state after a sequence of calls. -/
def execs (m : Multimap T D) (ops : List (Op T)) : Multimap T D := ops.foldl exec m

/-- The empty container. -/
def empty (T : Type) : Multimap T Unit := { derived := () }

end Motis.DynamicFwsMultimap
