import Mathlib.Data.String.Basic
import Motis.Lib.OrderedMap

/-! The registry of operations and the choice of the one that answers a request.

    Modules register operations under names, remote servers the names they serve. A request goes to
    the operation whose name comes last among the names up to its target, if that name is a prefix
    of the target: local operations first, then remote ones. -/

namespace Motis.Module
open OrderedMap

inductive RegistryError where
  /-- `register_op: target {} already registered`. -/
  | alreadyRegistered (name : String)
  deriving DecidableEq, Repr

/-- The operations of the registry; `Op` has the function and the resources it accesses. -/
structure Registry (Op RemoteOp : Type) where
  operations : Std.TreeMap String Op := ∅
  remoteOperations : Std.TreeMap String RemoteOp := ∅

namespace Registry

variable {Op RemoteOp : Type}

def registerOp (r : Registry Op RemoteOp) (name : String) (op : Op) :
    Except RegistryError (Registry Op RemoteOp) :=
  if name ∈ r.operations then .error (.alreadyRegistered name)
  else .ok { r with operations := r.operations.insert name op }

/-- Registers the names that are free and returns them. -/
def registerRemoteOps (r : Registry Op RemoteOp) (names : List String) (fn : RemoteOp) :
    Registry Op RemoteOp × List String :=
  names.foldl (fun (r, successfulNames) name =>
    if name ∈ r.remoteOperations then (r, successfulNames)
    else ({ r with remoteOperations := r.remoteOperations.insert name fn },
      successfulNames ++ [name])) (r, [])

def unregisterRemoteOp (r : Registry Op RemoteOp) (names : List String) : Registry Op RemoteOp :=
  { r with remoteOperations := names.foldl (·.erase ·) r.remoteOperations }

/-- The value before `upper_bound(prefix)`, if its name is a prefix of it. -/
def findByPrefix {β : Type} (m : Std.TreeMap String β) (q : String) : Option β :=
  match predecessor m q with
  | some (name, v) => if name.toList <+: q.toList then some v else none
  | none => none

def getRemoteOp (r : Registry Op RemoteOp) (q : String) : Option RemoteOp :=
  findByPrefix r.remoteOperations q

def getOperation (r : Registry Op RemoteOp) (q : String) : Option Op :=
  findByPrefix r.operations q

end Registry

/-! ### dispatcher -/

variable {Op RemoteOp : Type}

/-- `run` of `dispatch`: a local operation, else a remote one; `none` is `handle_no_target`. -/
def lookup (r : Registry Op RemoteOp) (target : String) : Option (Op ⊕ RemoteOp) :=
  match r.getOperation target with
  | some op => some (.inl op)
  | none => (r.getRemoteOp target).map .inr

end Motis.Module
