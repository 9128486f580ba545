import Mathlib.Algebra.Ring.Int.Defs
import Motis.Core.Common.FwsGraph
import Motis.Core.Common.FwsMultimap

/-! The three hand-written random access iterators.

    Two of them decrement by incrementing, the third one subtracts by adding:

        bucket_iterator         --it ──▶ index_ + 1
        edge_iterator           --it ──▶ bucket_it_ + 1
        fws_multimap_iterator   it - n ──▶ index_ + n

    The other operations of each are exact. -/

namespace Motis
open DynamicFwsMultimap RandomAccess FwsGraph

/-! ### `dynamic_fws_multimap_base::bucket_iterator` -/

structure BucketIterator (T D : Type) where
  multimap : Multimap T D
  index : UInt32

namespace BucketIterator

variable {T D : Type}

/-- An `int` added to a `size_type`. -/
def toSizeType (n : Int32) : UInt32 := UInt32.ofInt n.toInt

def addAssign (it : BucketIterator T D) (n : Int32) : BucketIterator T D :=
  { it with index := it.index + toSizeType n }

def subAssign (it : BucketIterator T D) (n : Int32) : BucketIterator T D :=
  { it with index := it.index - toSizeType n }

def increment (it : BucketIterator T D) : BucketIterator T D := { it with index := it.index + 1 }

def decrement (it : BucketIterator T D) : BucketIterator T D := { it with index := it.index + 1 }

def add (it : BucketIterator T D) (n : Int32) : BucketIterator T D :=
  ⟨it.multimap, it.index + toSizeType n⟩

def sub (it : BucketIterator T D) (n : Int32) : BucketIterator T D :=
  ⟨it.multimap, it.index - toSizeType n⟩

instance : RandomAccess.Iterator (BucketIterator T D) where
  increment := increment
  decrement := decrement
  addAssign := addAssign
  subAssign := subAssign
  add := add
  sub := sub
  position it := it.index.toNat

end BucketIterator

def DynamicFwsMultimap.Multimap.begin {T D : Type} (m : Multimap T D) : BucketIterator T D := ⟨m, 0⟩

def DynamicFwsMultimap.Multimap.end_ {T D : Type} (m : Multimap T D) : BucketIterator T D :=
  ⟨m, UInt32.ofNat m.index.length⟩

/-! ### `fws_graph::incoming_edge_bucket::edge_iterator` -/

/-- `bucket_it_` is a pointer into the slots of `bwd_`. -/
structure EdgeIterator (E : Type) where
  edges : EdgeMm E
  bucketIt : ℤ

namespace EdgeIterator

variable {E : Type}

def addAssign (it : EdgeIterator E) (n : Int32) : EdgeIterator E :=
  { it with bucketIt := it.bucketIt + n.toInt }

def subAssign (it : EdgeIterator E) (n : Int32) : EdgeIterator E :=
  { it with bucketIt := it.bucketIt - n.toInt }

def increment (it : EdgeIterator E) : EdgeIterator E := { it with bucketIt := it.bucketIt + 1 }

def decrement (it : EdgeIterator E) : EdgeIterator E := { it with bucketIt := it.bucketIt + 1 }

def add (it : EdgeIterator E) (n : Int32) : EdgeIterator E := ⟨it.edges, it.bucketIt + n.toInt⟩

def sub (it : EdgeIterator E) (n : Int32) : EdgeIterator E := ⟨it.edges, it.bucketIt - n.toInt⟩

instance : RandomAccess.Iterator (EdgeIterator E) where
  increment := increment
  decrement := decrement
  addAssign := addAssign
  subAssign := subAssign
  add := add
  sub := sub
  position it := it.bucketIt

end EdgeIterator

/-- `incoming_edges(to_node).begin()` -/
def FwsGraph.incomingBegin {N E : Type} (g : FwsGraph N E) (toNode : ℕ) : EdgeIterator E :=
  ⟨g.edges, (g.edges.derived.idx toNode).begin⟩

/-- `incoming_edges(to_node).end()` -/
def FwsGraph.incomingEnd {N E : Type} (g : FwsGraph N E) (toNode : ℕ) : EdgeIterator E :=
  ⟨g.edges, (g.edges.derived.idx toNode).begin + (g.edges.derived.idx toNode).size⟩

/-! ### Which moves are exact -/

/-- `n` elements from `first` to `last`, a move that is right where `Right` holds: runs between
    `first` and `last` are exact if and only if their moves are right, and so is walking back. -/
def ExactWhere {I : Type} [RandomAccess.Iterator I] (Right : Move → Prop) (first last : I) : Prop :=
  (∀ (it : I) (ms : List Move), Within (position first) (position last) (position it) ms →
    (Exact it (position it) ms ↔ ∀ m ∈ ms, Right m)) ∧
  ∀ (m : Move) (n : ℕ), m.distance = -1 → position first + n = position last →
    (backward m last n = (forward first n).reverse ↔ Right m ∨ n = 0)

theorem exactWhere_of_reaches {I : Type} [RandomAccess.Iterator I] {Right : Move → Prop}
    {first last : I} (h : Reaches Right first last) (hinc : Right .increment) :
    ExactWhere Right first last :=
  ⟨fun it ms hwithin => exact_iff h ms it hwithin, fun _ _ hdistance hn =>
    backward_iff h hinc hdistance hn⟩

/-- The moves of a bucket iterator and of an edge iterator that are right. -/
def NotDecrement (m : Move) : Prop := m ≠ .decrement

/-- The moves of the iterator of `fws_multimap` that are right. -/
def NotSub (m : Move) : Prop := ∀ n, m = .sub n → n = 0

/-! ### Indices that are machine words -/

/-- An integer stored in 32 or 64 bits. -/
theorem toNat_ofInt32 (z : ℤ) : ((UInt32.ofInt z).toNat : ℤ) = z % 2 ^ 32 := by
  have hrange : 0 ≤ z % 2 ^ 32 ∧ z % 2 ^ 32 < 2 ^ 32 := by omega
  have hlt : (z % 2 ^ 32).toNat < 2 ^ 32 := by omega
  have htoNat : (UInt32.ofInt z).toNat = (z % 2 ^ 32).toNat := UInt32.toNat_ofNat_of_lt' hlt
  omega

theorem toNat_ofInt64 (z : ℤ) : ((UInt64.ofInt z).toNat : ℤ) = z % 2 ^ 64 := by
  have hrange : 0 ≤ z % 2 ^ 64 ∧ z % 2 ^ 64 < 2 ^ 64 := by omega
  have hlt : (z % 2 ^ 64).toNat < 2 ^ 64 := by omega
  have htoNat : (UInt64.ofInt z).toNat = (z % 2 ^ 64).toNat := UInt64.toNat_ofNat_of_lt' hlt
  omega

/-- A sum of a word and an integer that a word holds does not wrap. -/
theorem toNat_add_ofInt32 {i : UInt32} {z : ℤ} (hfirst : 0 ≤ i.toNat + z)
    (hlast : i.toNat + z < 2 ^ 32) : ((i + UInt32.ofInt z).toNat : ℤ) = i.toNat + z := by
  have hz := toNat_ofInt32 z
  have hi := i.toNat_lt
  rw [UInt32.toNat_add]
  omega

theorem toNat_sub_ofInt32 {i : UInt32} {z : ℤ} (hfirst : 0 ≤ i.toNat + -z)
    (hlast : i.toNat + -z < 2 ^ 32) : ((i - UInt32.ofInt z).toNat : ℤ) = i.toNat + -z := by
  have hz := toNat_ofInt32 z
  have hi := i.toNat_lt
  rw [UInt32.toNat_sub]
  omega

theorem toNat_add_ofInt64 {i : UInt64} {z : ℤ} (hfirst : 0 ≤ i.toNat + z)
    (hlast : i.toNat + z < 2 ^ 64) : ((i + UInt64.ofInt z).toNat : ℤ) = i.toNat + z := by
  have hz := toNat_ofInt64 z
  have hi := i.toNat_lt
  rw [UInt64.toNat_add]
  omega

theorem toNat_sub_ofInt64 {i : UInt64} {z : ℤ} (hfirst : 0 ≤ i.toNat + -z)
    (hlast : i.toNat + -z < 2 ^ 64) : ((i - UInt64.ofInt z).toNat : ℤ) = i.toNat + -z := by
  have hz := toNat_ofInt64 z
  have hi := i.toNat_lt
  rw [UInt64.toNat_sub]
  omega

/-! ### The three iterators -/

theorem reaches_bucketIterator {T D : Type} (first last : BucketIterator T D) :
    Reaches NotDecrement first last := by
  intro it m hfirst hlast
  have hfirst : 0 ≤ (it.index.toNat : ℤ) + m.distance := le_trans (Int.natCast_nonneg _) hfirst
  have hlast : (it.index.toNat : ℤ) + m.distance < 2 ^ 32 := by
    have hle : (it.index.toNat : ℤ) + m.distance ≤ last.index.toNat := hlast
    have hmax := last.index.toNat_lt
    omega
  have hone : (1 : UInt32) = UInt32.ofInt 1 := by decide
  cases m with
  | increment =>
    refine iff_of_true ?_ (by rintro ⟨⟩)
    change ((it.index + 1).toNat : ℤ) = it.index.toNat + 1
    rw [hone]
    exact toNat_add_ofInt32 hfirst hlast
  | decrement =>
    refine iff_of_false ?_ fun h => h rfl
    change ((it.index + 1).toNat : ℤ) ≠ it.index.toNat + -1
    simp only [Move.distance] at hfirst
    rw [UInt32.toNat_add, UInt32.toNat_one]
    omega
  | addAssign n | add n => exact iff_of_true (toNat_add_ofInt32 hfirst hlast) (by rintro ⟨⟩)
  | subAssign n | sub n => exact iff_of_true (toNat_sub_ofInt32 hfirst hlast) (by rintro ⟨⟩)

theorem reaches_edgeIterator {E : Type} (first last : EdgeIterator E) :
    Reaches NotDecrement first last := by
  intro it m _ _
  cases m with
  | increment | addAssign n | add n => exact iff_of_true rfl nofun
  | decrement =>
    refine iff_of_false ?_ fun h => h rfl
    change it.bucketIt + 1 ≠ it.bucketIt + -1
    omega
  | subAssign n | sub n => exact iff_of_true (Int.sub_eq_add_neg ..) nofun

theorem reaches_fwsMultimapIterator {Map : Type} (first last : FwsMultimapIterator Map) :
    Reaches NotSub first last := by
  intro it m hfirst hlast
  have hfirst : 0 ≤ (it.index.toNat : ℤ) + m.distance := le_trans (Int.natCast_nonneg _) hfirst
  have hlast : (it.index.toNat : ℤ) + m.distance < 2 ^ 64 := by
    have hle : (it.index.toNat : ℤ) + m.distance ≤ last.index.toNat := hlast
    have hmax := last.index.toNat_lt
    omega
  have hone : (1 : UInt64) = UInt64.ofInt 1 := by decide
  cases m with
  | increment =>
    refine iff_of_true ?_ nofun
    change ((it.index + 1).toNat : ℤ) = it.index.toNat + 1
    rw [hone]
    exact toNat_add_ofInt64 hfirst hlast
  | decrement =>
    refine iff_of_true ?_ nofun
    change ((it.index - 1).toNat : ℤ) = it.index.toNat + -1
    rw [hone]
    exact toNat_sub_ofInt64 hfirst hlast
  | addAssign n | add n => exact iff_of_true (toNat_add_ofInt64 hfirst hlast) nofun
  | subAssign n => exact iff_of_true (toNat_sub_ofInt64 hfirst hlast) nofun
  | sub n =>
    -- the sum goes the same way as the difference only by nothing
    change ((it.index + UInt64.ofInt n.toInt).toNat : ℤ) = it.index.toNat + -n.toInt ↔ _
    simp only [Move.distance] at hfirst hlast
    have hit := it.index.toNat_lt
    have hn := toNat_ofInt64 n.toInt
    have hlt := n.toInt_lt
    have hge := n.le_toInt
    rw [UInt64.toNat_add]
    constructor
    · intro heq k hk
      obtain rfl := Move.sub.inj hk
      refine Int32.toInt_inj.mp ?_
      change n.toInt = 0
      omega
    · intro h
      have hzero : n.toInt = 0 := by
        rw [h n rfl]
        rfl
      omega

/-- A run between the ends of a container is exact if and only if it makes no `--` with the first
    two iterators, and no `- n` but with `n = 0` with the third one. -/
theorem iterators_exact_iff {T D N E K : Type} (m : Multimap T D) (g : FwsGraph N E) (toNode : ℕ)
    (keys : FwsMultimap K) :
    ExactWhere NotDecrement m.begin m.end_ ∧
      ExactWhere NotDecrement (g.incomingBegin toNode) (g.incomingEnd toNode) ∧
      ExactWhere NotSub keys.begin keys.end_ := by
  refine ⟨?_, ?_, ?_⟩
  · exact exactWhere_of_reaches (reaches_bucketIterator _ _) nofun
  · exact exactWhere_of_reaches (reaches_edgeIterator _ _) nofun
  · exact exactWhere_of_reaches (reaches_fwsMultimapIterator _ _) nofun

/-- A container with one bucket, and its end. -/
def oneBucket : Multimap ℕ Unit := execs (empty ℕ) [.pushBack 0 7]

/-- A map with one key. -/
def oneKey : FwsMultimap ℕ := (FwsMultimap.build [.pushBack 7, .finishKey]).finishMap

/-- `--end` and `end - 1` go past the end. -/
theorem not_exact_backwards :
    ¬(∀ (it : BucketIterator ℕ Unit) (ms : List Move),
      Within (position oneBucket.begin) (position oneBucket.end_) (position it) ms →
        Exact it (position it) ms) ∧
    ¬∀ (it : FwsMultimapIterator (FwsMultimap ℕ)) (ms : List Move),
      Within (position oneKey.begin) (position oneKey.end_) (position it) ms →
        Exact it (position it) ms := by
  have hend : position oneBucket.end_ = 1 := rfl
  have hend' : position oneKey.end_ = 1 := rfl
  refine ⟨fun h => ?_, fun h => ?_⟩
  · have hexact := h oneBucket.end_ [.decrement] ⟨by decide, by decide, by decide, by decide⟩
    have hposition : position (move oneBucket.end_ .decrement) = 2 := rfl
    rw [Exact, Exact, hposition, hend] at hexact
    exact absurd hexact.2 (by decide)
  · have hexact := h oneKey.end_ [.sub 1] ⟨by decide, by decide, by decide, by decide⟩
    have hposition : position (move oneKey.end_ (.sub 1)) = 2 := rfl
    rw [Exact, Exact, hposition, hend'] at hexact
    exact absurd hexact.2 (by decide)

end Motis
