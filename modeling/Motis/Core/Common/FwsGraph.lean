import Motis.Core.Common.DynamicFwsMultimap

/-! `fws_graph`: a node's outgoing edges by value, its incoming edges by slot number.

    The edges lie in the buckets of `edges_`, one bucket per start node. `edges_.bwd_` holds for
    every node the slots of its incoming edges. When a bucket of `edges_` grows, its edges change
    slots, and `entries_moved` rewrites the numbers in the buckets of their end nodes.

        edges_   data_  [ … ][ e₀ e₁ e₂ _ ][ … ]          bwd_   to e₀:  … 7 …
                               7  8  9                           to e₁:  … 8 …

    A call of `push_back_edge` that throws leaves what it has done so far. -/

namespace Motis
open Slots DynamicFwsMultimap

/-- `bwd_mm_t`. -/
abbrev BwdMm := Multimap ℕ Unit

/-- `edge_fws_multimap` adds the member `bwd_`. -/
abbrev EdgeMm (E : Type) := Multimap E BwdMm

/-- `fws_graph`: `nodes_` and `edges_`. -/
structure FwsGraph (N E : Type) where
  nodes : List N := []
  edges : EdgeMm E := { derived := DynamicFwsMultimap.empty ℕ }

namespace FwsGraph

/-- What the graph asks of an edge type. -/
class Edge (E : Type) where
  from_ : E → ℕ
  to_ : E → ℕ

export Edge (from_ to_)

/-- The new number of slot `i` after `count` entries have moved. -/
def movedIndex (oldDataIndex newDataIndex count i : ℕ) : ℕ :=
  if oldDataIndex ≤ i ∧ i < oldDataIndex + count then newDataIndex + (i - oldDataIndex) else i

/-- `for (auto& i : bwd_.at(e.to_)) i = f(i)`. -/
def updateBucket (bwd : BwdMm) (toNode : ℕ) (f : ℕ → ℕ) : Except Error BwdMm := do
  bwd.checkedAt toNode
  pure { bwd with data := overwrite bwd.data (bwd.idx toNode).begin ((bwd.bucket toNode).map f) }

section Model
variable {N E : Type} [Edge E]

/-- `edge_fws_multimap::entries_moved`. -/
def entriesMoved (edges : EdgeMm E) (mapIndex oldDataIndex newDataIndex count : ℕ) :
    Except Error BwdMm := do
  edges.checkedAt mapIndex
  (edges.bucket mapIndex).foldlM (fun bwd e =>
    updateBucket bwd (to_ e) (movedIndex oldDataIndex newDataIndex count)) edges.derived

instance : EntriesMoved E BwdMm := ⟨entriesMoved⟩

/-- `edges_[index]; edges_.bwd_[index]`. -/
def initNodeEdges (g : FwsGraph N E) (index : ℕ) : FwsGraph N E :=
  let edges := g.edges.operatorIndex index
  { g with edges := { edges with derived := edges.derived.operatorIndex index } }

def emplaceBackNode (g : FwsGraph N E) (n : N) : FwsGraph N E :=
  { g with nodes := g.nodes ++ [n] }.initNodeEdges (toSizeType g.nodes.length)

omit [Edge E] in
def outgoingEdges (g : FwsGraph N E) (fromNode : ℕ) : List E := g.edges.bucket fromNode

omit [Edge E] in
/-- The edges the iterator of `incoming_edges` visits; `none` is a slot outside `data_`. -/
def incomingEdges (g : FwsGraph N E) (toNode : ℕ) : List (Option E) :=
  (g.edges.derived.bucket toNode).map (g.edges.data[·]?)

/-- The calls that build a graph. Both overloads of `push_back_edge` are one call on values. -/
inductive Call (N E : Type) where
  | emplaceBackNode (n : N)
  | pushBackEdge (e : E)

variable [Inhabited E]

/-- `push_back_edge`, with the slot of the edge, and the state a throwing call leaves. -/
def pushBackEdge (g : FwsGraph N E) (e : E) : FwsGraph N E × Except Error ℕ :=
  let edges := g.edges.operatorIndex (from_ e)
  match edges.pushBackEntry (from_ e) e with
  | .error err => ({ g with edges := edges }, .error err)
  | .ok (edges, dataIndex) =>
    let bwd := edges.derived.operatorIndex (to_ e)
    match bwd.pushBackEntry (to_ e) dataIndex with
    | .error err => ({ g with edges := { edges with derived := bwd } }, .error err)
    | .ok (bwd, _) => ({ g with edges := { edges with derived := bwd } }, .ok dataIndex)

def call (g : FwsGraph N E) : Call N E → FwsGraph N E
  | .emplaceBackNode n => g.emplaceBackNode n
  | .pushBackEdge e => (g.pushBackEdge e).1

def calls (g : FwsGraph N E) (cs : List (Call N E)) : FwsGraph N E := cs.foldl call g

end Model

end FwsGraph

end Motis
