import Mathlib.Data.PNat.Defs
import Motis.Lib.ByteStack

/-! `FlatBufferBuilder`: the messages of the app are written from their end.

    Strings, vectors and tables are put before what is there already, and are referred to by their
    offset from the end. A table holds its fields and an offset to its vtable, which says where each
    field is; tables with equal vtables share one:

        [ vtable | soffset fields ... | string | vtable | soffset fields ... ]
                      ▲                              ▲
                    table                          table

    The buffer doubles when it is full. -/

namespace Motis.Android
open ByteStack

inductive BuilderError where
  /-- `FlatBuffers: cannot grow buffer beyond 2 gigabytes.` -/
  | cannotGrow
  | indexOutOfBounds
  /-- `FlatBuffers: object serialization must not be nested.` -/
  | nested
  /-- `FlatBuffers: struct must be serialized inline.` -/
  | notInline
  /-- `FlatBuffers: endVector called without startVector`, also for `endObject`. -/
  | notStarted
  /-- `FlatBuffers: you can only access the serialized buffer after it has been finished by
      FlatBufferBuilder.finish().` -/
  | notFinished
  /-- `assert off <= offset()`. -/
  | offsetTooLarge
  deriving DecidableEq, Repr

/-- `this(1024)` -/
def initialSize : ℕ+ := 1024

structure FlatBufferBuilder where
  /-- The bytes from `space` on. -/
  bytes : List UInt8 := []
  capacity : ℕ+ := initialSize
  minalign : ℕ := 1
  /-- The first `vtable_in_use` entries of `vtable`. -/
  vtable : List ℕ := []
  nested : Bool := false
  finished : Bool := false
  objectStart : ℕ := 0
  /-- The first `num_vtables` entries of `vtables`. -/
  vtables : List ℕ := []
  vectorNumElems : ℕ := 0
  forceDefaults : Bool := false

namespace FlatBufferBuilder

def SIZEOF_SHORT : ℕ := 2
def SIZEOF_INT : ℕ := 4

abbrev Result (α : Type) := Except BuilderError α

def space (b : FlatBufferBuilder) : ℕ := b.capacity - b.bytes.length

def offset (b : FlatBufferBuilder) : ℕ := b.bytes.length

/-- The loop around `growByteBuffer`: the capacity with room for `need` bytes. -/
def growByteBuffer (capacity : ℕ+) (used need : ℕ) : Result ℕ+ :=
  if used + need ≤ capacity then .ok capacity
  else if 0x40000000 ≤ (capacity : ℕ) then .error .cannotGrow
  else growByteBuffer (2 * capacity) used need
termination_by 0x40000000 - (capacity : ℕ)
decreasing_by
  have hpos := capacity.pos
  have hdouble : ((2 * capacity : ℕ+) : ℕ) = 2 * (capacity : ℕ) := rfl
  omega

/-- Bytes are put before `space`. -/
def put (b : FlatBufferBuilder) (bs : List UInt8) : Result FlatBufferBuilder :=
  if b.bytes.length + bs.length ≤ b.capacity then .ok { b with bytes := bs ++ b.bytes }
  else .error .indexOutOfBounds

def pad (b : FlatBufferBuilder) (byteSize : ℕ) : Result FlatBufferBuilder :=
  b.put (List.replicate byteSize 0)

/-- `((~(capacity - space + additional_bytes)) + 1) & (size - 1)`. -/
def alignSize (size used : ℕ) : ℕ :=
  ((~~~(BitVec.ofNat 32 used) + 1) &&& BitVec.ofNat 32 (size - 1)).toNat

def prep (b : FlatBufferBuilder) (size additionalBytes : ℕ) : Result FlatBufferBuilder := do
  -- Track the biggest thing we've ever aligned to.
  let b := { b with minalign := if b.minalign < size then size else b.minalign }
  let alignSize := alignSize size (b.offset + additionalBytes)
  let capacity ← growByteBuffer b.capacity b.bytes.length (alignSize + size + additionalBytes)
  pad { b with capacity := capacity } alignSize

/-- `putBoolean`, `putByte`, `putShort`, `putInt` and `putLong`: a number of `size` bytes. -/
def putNumber (b : FlatBufferBuilder) (size : ℕ) (x : ℤ) : Result FlatBufferBuilder :=
  b.put (toBytes size x)

/-- `addBoolean`, `addByte`, `addShort`, `addInt` and `addLong`. -/
def addNumber (b : FlatBufferBuilder) (size : ℕ) (x : ℤ) : Result FlatBufferBuilder := do
  let b ← b.prep size 0
  b.putNumber size x

def addOffset (b : FlatBufferBuilder) (off : ℕ) : Result FlatBufferBuilder := do
  -- Ensure alignment is already done.
  let b ← b.prep SIZEOF_INT 0
  if b.offset < off then throw .offsetTooLarge
  b.putNumber SIZEOF_INT (b.offset - off + SIZEOF_INT)

def notNested (b : FlatBufferBuilder) : Result Unit :=
  if b.nested then .error .nested else .ok ()

/-! ### Vectors and strings -/

def startVector (b : FlatBufferBuilder) (elemSize numElems alignment : ℕ) :
    Result FlatBufferBuilder := do
  b.notNested
  let b ← { b with vectorNumElems := numElems }.prep SIZEOF_INT (elemSize * numElems)
  -- Just in case alignment > int.
  let b ← b.prep alignment (elemSize * numElems)
  return { b with nested := true }

def endVector (b : FlatBufferBuilder) : Result (ℕ × FlatBufferBuilder) := do
  if !b.nested then throw .notStarted
  let b ← { b with nested := false }.putNumber SIZEOF_INT b.vectorNumElems
  return (b.offset, b)

/-- The string as it is encoded in UTF-8. -/
def createString (b : FlatBufferBuilder) (s : List UInt8) : Result (ℕ × FlatBufferBuilder) := do
  let b ← b.addNumber 1 0
  let b ← b.startVector 1 s.length 1
  let b ← b.put s
  b.endVector

/-- What is generated for a vector of tables. -/
def createOffsetVector (b : FlatBufferBuilder) (data : List ℕ) :
    Result (ℕ × FlatBufferBuilder) := do
  let b ← b.startVector 4 data.length 4
  let b ← data.reverse.foldlM addOffset b
  b.endVector

/-! ### Tables -/

def startObject (b : FlatBufferBuilder) (numfields : ℕ) : Result FlatBufferBuilder := do
  b.notNested
  return { b with
    vtable := List.replicate numfields 0
    nested := true
    objectStart := b.offset }

def slot (b : FlatBufferBuilder) (voffset : ℕ) : Result FlatBufferBuilder :=
  if voffset < b.vtable.length then .ok { b with vtable := b.vtable.set voffset b.offset }
  else .error .indexOutOfBounds

/-- What is added to a table. -/
inductive Field where
  /-- A number of `size` bytes that is left out when it is `d`. -/
  | number (size : ℕ) (x d : ℤ)
  | offset (off : ℕ)
  /-- A struct of numbers, in their order in memory, created right before it is added. -/
  | struct (size : ℕ) (members : List ℤ)

def addStruct (b : FlatBufferBuilder) (voffset x d : ℕ) : Result FlatBufferBuilder :=
  if x ≠ d then
    if x ≠ b.offset then .error .notInline
    else b.slot voffset
  else .ok b

/-- The `add` methods with a slot. -/
def addField (b : FlatBufferBuilder) (o : ℕ) : Field → Result FlatBufferBuilder
  | .number size x d =>
    if b.forceDefaults || x != d then do
      let b ← b.addNumber size x
      b.slot o
    else .ok b
  | .offset off =>
    if b.forceDefaults || off != 0 then do
      let b ← b.addOffset off
      b.slot o
    else .ok b
  | .struct size members => do
    let b ← b.prep size (size * members.length)
    let b ← members.reverse.foldlM (putNumber · size ·) b
    b.addStruct o b.offset 0

/-- The number at a position of the buffer. -/
def getShort (b : FlatBufferBuilder) (pos : ℕ) : ℤ :=
  ofBytes ((b.bytes.drop (pos - b.space)).take SIZEOF_SHORT)

/-- The comparison of two vtables: their lengths and then all that follows. -/
def sameVtable (b : FlatBufferBuilder) (vt1 vt2 : ℕ) : Bool :=
  let len := b.getShort vt1
  len == b.getShort vt2 &&
    ((List.range len.toNat).filter fun j => SIZEOF_SHORT ≤ j ∧ j % SIZEOF_SHORT = 0).all fun j =>
      b.getShort (vt1 + j) == b.getShort (vt2 + j)

/-- `bb.putInt` at the offset `off`. -/
def overwrite (b : FlatBufferBuilder) (off : ℕ) (x : ℤ) : FlatBufferBuilder :=
  let n := b.bytes.length - off
  { b with bytes := b.bytes.take n ++ toBytes SIZEOF_INT x ++ b.bytes.drop (n + SIZEOF_INT) }

/-- The end of `endObject`: the table points to an existing vtable that matches the current one, or
    to the current one. -/
def shareVtable (b : FlatBufferBuilder) (vtableloc : ℕ) : FlatBufferBuilder :=
  let existingVtable :=
    (b.vtables.find? fun vt => b.sameVtable (b.capacity - vt) b.space).getD 0
  if existingVtable ≠ 0 then
    -- Remove the current vtable.
    let b := { b with bytes := b.bytes.drop (b.bytes.length - vtableloc) }
    b.overwrite vtableloc (existingVtable - vtableloc)
  else
    let b' := { b with vtables := b.vtables ++ [b.offset] }
    b'.overwrite vtableloc (b.offset - vtableloc)

def endObject (b : FlatBufferBuilder) : Result (ℕ × FlatBufferBuilder) := do
  if !b.nested then throw .notStarted
  let b ← b.addNumber SIZEOF_INT 0
  let vtableloc := b.offset
  -- Write out the current vtable.
  let b ← b.vtable.reverse.foldlM (fun b o =>
    -- Offset relative to the start of the table.
    b.addNumber SIZEOF_SHORT (if o ≠ 0 then vtableloc - o else 0)) b
  let standardFields := 2
  let b ← b.addNumber SIZEOF_SHORT (vtableloc - b.objectStart)
  let b ← b.addNumber SIZEOF_SHORT ((b.vtable.length + standardFields) * SIZEOF_SHORT)
  return (vtableloc, { b.shareVtable vtableloc with nested := false })

/-- What is generated for a table: the fields are added to their slots in this order. -/
def createTable (b : FlatBufferBuilder) (numfields : ℕ) (fields : List (ℕ × Field)) :
    Result (ℕ × FlatBufferBuilder) := do
  let b ← b.startObject numfields
  let b ← fields.foldlM (fun b f => b.addField f.1 f.2) b
  b.endObject

/-! ### Finishing -/

def finish (b : FlatBufferBuilder) (rootTable : ℕ) : Result FlatBufferBuilder := do
  let b ← b.prep b.minalign SIZEOF_INT
  let b ← b.addOffset rootTable
  return { b with finished := true }

def sizedByteArray (b : FlatBufferBuilder) : Result (List UInt8) :=
  if b.finished then .ok b.bytes else .error .notFinished

end FlatBufferBuilder

end Motis.Android
