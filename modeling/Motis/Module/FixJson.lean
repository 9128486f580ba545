import Mathlib.Data.List.Basic
import Mathlib.Data.List.Forall2
import Mathlib.Data.Nat.Notation
import Motis.Lib.Headed

/-! Normalisation of JSON requests.

    The types of unions are told by the member before the union, in the same object. A request may
    have them anywhere, or inside of the union, as its `_type`:

        { "a": 1, "u": {"_type": "T", "x": 2} }  ──▶  { "a": 1, "u_type": "T", "u": {"x": 2} }
        { "u": {"x": 2}, "a": 1, "u_type": "T" }  ──▶  { "u_type": "T", "u": {"x": 2}, "a": 1 }

    An object first writes the members that have such a type, each after its type, and then the
    others. What is written is a tree here; a member is written without a name when it is empty. -/

namespace Motis.Module

open Headed

inductive JsonScalar where
  | null
  | bool (b : Bool)
  | number (text : String)
  | string (s : String)
  deriving DecidableEq, Repr

inductive Json where
  | scalar (s : JsonScalar)
  | array (elements : List Json)
  | object (members : List (String × Json))

/-- What the calls of the writer have written. -/
inductive Written where
  | scalar (s : JsonScalar)
  | array (elements : List Written)
  | object (items : List (Option String × Written))

abbrev Item := Option String × Written

def kTypeKey : String := "_type"

def typeKeyOf (key : String) : String := key ++ kTypeKey

/-! ### Writing -/

/-- `is_type_key`: the key without the suffix `_type`, when there is more. -/
def unionKey (key : String) : Option String :=
  let cs := key.toList
  if 5 < cs.length ∧ cs.drop (cs.length - 5) = kTypeKey.toList then
    some (String.ofList (cs.take (cs.length - 5)))
  else none

/-- A value, and the value of its `_type` when it is an object. -/
structure Converted where
  type : Option Written
  value : Written

/-- `write_json_value` under a key. -/
def writeMember (key : String) (c : Converted) : List Item :=
  if key = "" then [(none, c.value)]
  else (c.type.map fun t => (some (typeKeyOf key), t)).toList ++ [(some key, c.value)]

/-- The first loop over the members: types and their unions, and what has been written. -/
def writeUnions (members : List (String × Converted)) : List Item × List String :=
  members.foldl (fun (items, written) m =>
    match (unionKey m.1).bind fun key => (members.lookup key).map (key, ·) with
    | some (key, it) =>
      (items ++ (some m.1, m.2.value) :: writeMember key it, written ++ [m.1, key])
    | none => (items, written)) ([], [])

/-- The members of an object. -/
def writeMembers (members : List (String × Converted)) : List Item :=
  let (items, written) := writeUnions members
  members.foldl (fun items m =>
    if m.1 ≠ kTypeKey ∧ m.1 ∉ written then items ++ writeMember m.1 m.2 else items) items

mutual

/-- `write_json_value` -/
def convert : Json → Converted
  | .scalar s => ⟨none, .scalar s⟩
  | .array es => ⟨none, .array (convertElements es)⟩
  | .object ms =>
    let members := convertMembers ms
    ⟨(members.lookup kTypeKey).map (·.value), .object (writeMembers members)⟩

def convertElements : List Json → List Written
  | [] => []
  | e :: es => (convert e).value :: convertElements es

def convertMembers : List (String × Json) → List (String × Converted)
  | [] => []
  | (key, v) :: ms => (key, convert v) :: convertMembers ms

end

def messageId : Item := (some "id", .scalar (.number "1"))

def fixJson (target : String) (d : Json) : Written :=
  match d with
  | .object ms =>
    let has (key : String) : Bool := (ms.lookup key).isSome
    let value := .object
      (writeMembers (convertMembers ms) ++ if has "id" then [] else [messageId])
    if has "destination" && has "content" then value
    else .object ((some "destination", .object [(some "target", .scalar (.string target))]) ::
      writeMember "content" ⟨(convert d).type, value⟩)
  | d => (convert d).value

/-! ### What normalisation is for -/

def Json.type? : Json → Option Json
  | .object ms => ms.lookup kTypeKey
  | _ => none

/-- The keys of all objects are distinct. -/
inductive Distinct : Json → Prop where
  | scalar (s : JsonScalar) : Distinct (.scalar s)
  | array {es : List Json} : (∀ e ∈ es, Distinct e) → Distinct (.array es)
  | object {ms : List (String × Json)} : (ms.map Prod.fst).Nodup →
      (∀ key v, (key, v) ∈ ms → Distinct v) → Distinct (.object ms)

/-- A member other than `_type` has the key, or a member that is a typed object gives it. -/
def HasKey (ms : List (String × Json)) (key : String) : Prop :=
  key ≠ kTypeKey ∧ key ∈ ms.map Prod.fst ∨
    ∃ k v, (k, v) ∈ ms ∧ v.type?.isSome ∧ key = typeKeyOf k

def itemsOf (keys : List String) (value : String → Written) : List Item :=
  keys.map fun key => (some key, value key)

/-- The members of an object are written once, each type directly before its union, and nothing
    else but what is added. -/
structure KeepsMembers (R : Json → Written → Prop) (ms : List (String × Json))
    (added : List String) (keys : List String) (value : String → Written) : Prop where
  nodup : keys.Nodup
  mem_iff : ∀ key, key ∈ keys ↔ HasKey ms key ∨ key ∈ added
  member : ∀ key v, (key, v) ∈ ms → key ≠ kTypeKey → R v (value key)
  type : ∀ key v t, (key, v) ∈ ms → v.type? = some t → R t (value (typeKeyOf key))
  direct : ∀ key ∈ keys, typeKeyOf key ∈ keys → Directly (typeKeyOf key) key keys

/-- The written value has the content of the value. -/
inductive KeepsContent : Json → Written → Prop where
  | scalar (s : JsonScalar) : KeepsContent (.scalar s) (.scalar s)
  | array {es : List Json} {ws : List Written} : List.Forall₂ KeepsContent es ws →
      KeepsContent (.array es) (.array ws)
  | object {ms : List (String × Json)} {keys : List String} {value : String → Written}
      (nodup : keys.Nodup) (mem_iff : ∀ key, key ∈ keys ↔ HasKey ms key)
      (member : ∀ key v, (key, v) ∈ ms → key ≠ kTypeKey → KeepsContent v (value key))
      (type : ∀ key v t, (key, v) ∈ ms → v.type? = some t → KeepsContent t (value (typeKeyOf key)))
      (direct : ∀ key ∈ keys, typeKeyOf key ∈ keys → Directly (typeKeyOf key) key keys) :
      KeepsContent (.object ms) (.object (itemsOf keys value))

def hasKey (ms : List (String × Json)) (key : String) : Bool := (ms.lookup key).isSome

/-- The result for a document: a message gets an id when it has none, other objects are the content
    of a message. -/
inductive Normalised (target : String) : Json → Written → Prop where
  | message {ms : List (String × Json)} {keys : List String} {value : String → Written}
      (hdestination : hasKey ms "destination" = true) (hcontent : hasKey ms "content" = true)
      (hkeeps : KeepsMembers KeepsContent ms (if hasKey ms "id" then [] else ["id"]) keys value)
      (hid : hasKey ms "id" = false → value "id" = messageId.2) :
      Normalised target (.object ms) (.object (itemsOf keys value))
  | content {ms : List (String × Json)} {type : Option Written} {w : Written}
      (hwrapper : (hasKey ms "destination" && hasKey ms "content") = false)
      (hkeeps : KeepsContent (.object ms) w)
      (htype : Option.Rel KeepsContent (Json.object ms).type? type) :
      Normalised target (.object ms)
        (.object ((some "destination", .object [(some "target", .scalar (.string target))]) ::
          (type.map fun t => (some "content_type", t)).toList ++ [(some "content", w)]))
  | value {d : Json} {w : Written} (hd : ∀ ms, d ≠ .object ms) (hkeeps : KeepsContent d w) :
      Normalised target d w

/-! ### The condition -/

/-- The members that are written after their types. -/
def unions (keys : List String) : List String :=
  keys.filterMap fun key => (unionKey key).filter (· ∈ keys)

/-- What the first loop writes. -/
def writtenKeys (keys : List String) : List String :=
  (unions keys).flatMap fun key => [typeKeyOf key, key]

/-- The members in the order in which they are written under their keys. -/
def visits (keys : List String) : List String :=
  unions keys ++ keys.filter fun key => key ≠ kTypeKey ∧ key ∉ writtenKeys keys

/-- No key is empty, no type is told twice, is lost or has a type of its own next to it, and the
    type of a type that is moved outward comes directly before. -/
structure MembersOk (keys : List String) (typed : String → Bool) : Prop where
  nonempty : "" ∉ keys
  type_untyped : kTypeKey ∈ keys → typeKeyOf kTypeKey ∉ keys
  single : ∀ key ∈ keys, typeKeyOf key ∈ keys → typeKeyOf (typeKeyOf key) ∉ keys
  inner_only : ∀ key, typed key → typeKeyOf key ∉ keys
  not_type : ∀ key, typed key → key ≠ kTypeKey ∧ ∀ k ∈ keys, key ≠ typeKeyOf k
  direct : ∀ key, typed key → typeKeyOf (typeKeyOf key) ∈ keys →
    Directly (typeKeyOf (typeKeyOf key)) key (visits keys)

/-- The member is an object with a `_type`. -/
def isTyped (ms : List (String × Json)) (key : String) : Bool :=
  ((ms.lookup key).bind Json.type?).isSome

/-- All objects that are written have such members. -/
inductive Regular : Json → Prop where
  | scalar (s : JsonScalar) : Regular (.scalar s)
  | array {es : List Json} : (∀ e ∈ es, Regular e) → Regular (.array es)
  | object {ms : List (String × Json)} (hok : MembersOk (ms.map Prod.fst) (isTyped ms))
      (member : ∀ key v, (key, v) ∈ ms → key ≠ kTypeKey → Regular v)
      (type : ∀ key v t, (key, v) ∈ ms → v.type? = some t → Regular t) :
      Regular (.object ms)

/-- A message has an id, or the type of an id comes last; a content has an id. -/
inductive RegularDocument : Json → Prop where
  | message {ms : List (String × Json)}
      (hdestination : hasKey ms "destination" = true) (hcontent : hasKey ms "content" = true)
      (hregular : Regular (.object ms))
      (hid : hasKey ms "id" = false → hasKey ms (typeKeyOf "id") = true →
        ∃ before, visits (ms.map Prod.fst) = before ++ [typeKeyOf "id"]) :
      RegularDocument (.object ms)
  | content {ms : List (String × Json)}
      (hwrapper : (hasKey ms "destination" && hasKey ms "content") = false)
      (hregular : Regular (.object ms)) (hid : hasKey ms "id" = true)
      (htype : ∀ t, (Json.object ms).type? = some t → Regular t) :
      RegularDocument (.object ms)
  | value {d : Json} (hd : ∀ ms, d ≠ .object ms) (hregular : Regular d) : RegularDocument d

end Motis.Module
