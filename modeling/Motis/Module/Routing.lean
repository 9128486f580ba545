import Motis.Lib.PrefixOrder
import Motis.Module.Registry

/-! Where a request goes.

    Routing means the longest registered name that is a prefix of the target. The lookup finds it
    unless another name that starts with it comes up to the target: with `/a` and `/a/b` nobody
    answers `/a/c`. -/

namespace Motis.Module
open OrderedMap PrefixOrder

/-- The names of a map. -/
def names {β : Type} (m : Std.TreeMap String β) : Set (List Char) :=
  {n | ∃ name ∈ m, name.toList = n}

theorem mem_names {β : Type} {m : Std.TreeMap String β} {name : String} :
    name.toList ∈ names m ↔ name ∈ m := by
  constructor
  · rintro ⟨name', h, heq⟩
    rwa [← String.toList_inj.mp heq]
  · intro h
    exact ⟨name, h, rfl⟩

/-- The order of the map is that of the words. -/
theorem isGreatest_names {β : Type} {m : Std.TreeMap String β} {q p : String} :
    IsGreatest {k | k ∈ m ∧ k ≤ q} p ↔
      IsGreatest {n | n ∈ names m ∧ n ≤ q.toList} p.toList := by
  constructor
  · rintro ⟨⟨hp, hle⟩, hmax⟩
    refine ⟨⟨mem_names.mpr hp, String.le_iff_toList_le.mp hle⟩, ?_⟩
    rintro _ ⟨⟨k, hk, rfl⟩, hkq⟩
    exact String.le_iff_toList_le.mp (hmax ⟨hk, String.le_iff_toList_le.mpr hkq⟩)
  · rintro ⟨⟨hp, hle⟩, hmax⟩
    refine ⟨⟨mem_names.mp hp, String.le_iff_toList_le.mpr hle⟩, ?_⟩
    rintro k ⟨hk, hkq⟩
    exact String.le_iff_toList_le.mpr
      (hmax ⟨mem_names.mpr hk, String.le_iff_toList_le.mp hkq⟩)

/-- A map finds the value of its longest name that is a prefix, provided nothing blocks it. -/
theorem findByPrefix_eq_some {β : Type} {m : Std.TreeMap String β} {q : String} {v : β} :
    Registry.findByPrefix m q = some v ↔ ∃ p : String, m[p]? = some v ∧
      Longest (names m) q.toList p.toList ∧ Unblocked (names m) q.toList p.toList := by
  rw [Registry.findByPrefix]
  constructor
  · intro h
    cases hpred : predecessor m q with
    | none => simp [hpred] at h
    | some e =>
      obtain ⟨p, w⟩ := e
      simp only [hpred, Option.ite_none_right_eq_some, Option.some_inj] at h
      obtain ⟨hstarts, rfl⟩ := h
      obtain ⟨hp, hmax⟩ := predecessor_eq_some.mp hpred
      exact ⟨p, hp, longest_of_isGreatest (isGreatest_names.mp hmax) hstarts⟩
  · rintro ⟨p, hp, hlongest, hfree⟩
    have hmax := isGreatest_names.mpr (isGreatest_of_longest hlongest hfree)
    rw [predecessor_eq_some.mpr ⟨hp, hmax⟩]
    simp [hlongest.isPrefix]

/-- It finds nothing when its longest name is blocked or there is none. -/
theorem findByPrefix_eq_none {β : Type} {m : Std.TreeMap String β} {q : String} :
    Registry.findByPrefix m q = none ↔
      ∀ p, Longest (names m) q.toList p → ¬ Unblocked (names m) q.toList p := by
  constructor
  · rintro hnone p hlongest hfree
    obtain ⟨name, hname, rfl⟩ := hlongest.mem
    obtain ⟨v, hv⟩ := Option.isSome_iff_exists.mp (Std.TreeMap.mem_iff_isSome_getElem?.mp hname)
    have hfind := findByPrefix_eq_some.mpr ⟨name, hv, hlongest, hfree⟩
    rw [hnone] at hfind
    cases hfind
  · intro hall
    cases hfind : Registry.findByPrefix m q with
    | none => rfl
    | some v =>
      obtain ⟨p, -, hlongest, hfree⟩ := findByPrefix_eq_some.mp hfind
      exact absurd hfree (hall _ hlongest)

/-! ### Local and remote operations -/

variable {Op RemoteOp : Type}

/-- All registered names. -/
def Registry.names (r : Registry Op RemoteOp) : Set (List Char) :=
  Module.names r.operations ∪ Module.names r.remoteOperations

/-- The operation is registered under the name. -/
def Registered (r : Registry Op RemoteOp) (name : String) : Op ⊕ RemoteOp → Prop
  | .inl op => r.operations[name]? = some op
  | .inr op => r.remoteOperations[name]? = some op

/-- An operation is found if and only if some name is a prefix, and it is that of the longest. -/
def RoutesToLongest (r : Registry Op RemoteOp) (q : String) : Prop :=
  ((lookup r q).isSome ↔ ∃ n ∈ r.names, n <+: q.toList) ∧
    ∀ op, lookup r q = some op → ∃ name, Registered r name op ∧
      Longest r.names q.toList name.toList

/-- The longest prefix is a local name that no local name blocks, or a remote name that no remote
    name blocks while every shorter local one is blocked. -/
def Reachable (r : Registry Op RemoteOp) (q : String) : Prop :=
  ∀ p, Longest r.names q.toList p →
    (p ∈ names r.operations ∧ Unblocked (names r.operations) q.toList p) ∨
    (p ∈ names r.remoteOperations ∧ Unblocked (names r.remoteOperations) q.toList p ∧
      ∀ l, Longest (names r.operations) q.toList l → ¬ Unblocked (names r.operations) q.toList l)

/-- What the lookup finds: the local side first. -/
theorem lookup_eq_some {r : Registry Op RemoteOp} {q : String} {op : Op ⊕ RemoteOp} :
    lookup r q = some op ↔
      (∃ o, op = .inl o ∧ Registry.findByPrefix r.operations q = some o) ∨
      (Registry.findByPrefix r.operations q = none ∧
        ∃ o, op = .inr o ∧ Registry.findByPrefix r.remoteOperations q = some o) := by
  rw [lookup, Registry.getOperation, Registry.getRemoteOp]
  cases Registry.findByPrefix r.operations q with
  | some o => simp [eq_comm]
  | none => simp [eq_comm, and_comm]

/-- A prefix of the target that is the longest in its map and in the registry is found there. -/
theorem registered_of_longest {β : Type} {m : Std.TreeMap String β} {r : Registry Op RemoteOp}
    {q : String} {p : List Char} (hsub : names m ⊆ r.names) (hp : Longest r.names q.toList p)
    (hmem : p ∈ names m) {name : String} (hname : Longest (names m) q.toList name.toList) :
    name.toList = p :=
  hname.unique (hp.subset hsub hmem)

/-- The route is right when the longest prefix is reachable. -/
theorem routesToLongest_of_reachable {r : Registry Op RemoteOp} {q : String}
    (h : Reachable r q) : RoutesToLongest r q := by
  have hfound : ∀ op, lookup r q = some op → ∃ name, Registered r name op ∧
      Longest r.names q.toList name.toList := by
    intro op hop
    rcases lookup_eq_some.mp hop with ⟨o, rfl, hfind⟩ | ⟨hnone, o, rfl, hfind⟩
    · obtain ⟨name, hname, hlongest, hfree⟩ := findByPrefix_eq_some.mp hfind
      obtain ⟨p, hp⟩ := exists_longest (Set.mem_union_left _ hlongest.mem) hlongest.isPrefix
      rcases h p hp with ⟨hmem, -⟩ | ⟨-, -, hblocked⟩
      · refine ⟨name, hname, ?_⟩
        rwa [registered_of_longest Set.subset_union_left hp hmem hlongest]
      · exact absurd hfree (hblocked _ hlongest)
    · obtain ⟨name, hname, hlongest, hfree⟩ := findByPrefix_eq_some.mp hfind
      obtain ⟨p, hp⟩ := exists_longest (Set.mem_union_right _ hlongest.mem) hlongest.isPrefix
      rcases h p hp with ⟨hmem, hlocal⟩ | ⟨hmem, -, -⟩
      · exact absurd hlocal (findByPrefix_eq_none.mp hnone p
          (hp.subset Set.subset_union_left hmem))
      · refine ⟨name, hname, ?_⟩
        rwa [registered_of_longest Set.subset_union_right hp hmem hlongest]
  refine ⟨⟨fun hsome => ?_, fun ⟨n, hn, hstarts⟩ => ?_⟩, hfound⟩
  · obtain ⟨op, hop⟩ := Option.isSome_iff_exists.mp hsome
    obtain ⟨name, -, hlongest⟩ := hfound op hop
    exact ⟨_, hlongest.mem, hlongest.isPrefix⟩
  · obtain ⟨p, hp⟩ := exists_longest hn hstarts
    cases hlookup : lookup r q with
    | some op => rfl
    | none =>
      rw [lookup, Registry.getOperation, Registry.getRemoteOp] at hlookup
      cases hlocal : Registry.findByPrefix r.operations q with
      | some o => simp [hlocal] at hlookup
      | none =>
        have hremote : Registry.findByPrefix r.remoteOperations q = none := by
          simpa [hlocal] using hlookup
        rcases h p hp with ⟨hmem, hfree⟩ | ⟨hmem, hfree, -⟩
        · exact absurd hfree (findByPrefix_eq_none.mp hlocal p
            (hp.subset Set.subset_union_left hmem))
        · exact absurd hfree (findByPrefix_eq_none.mp hremote p
            (hp.subset Set.subset_union_right hmem))

/-- And only then. -/
theorem reachable_of_routesToLongest {r : Registry Op RemoteOp} {q : String}
    (h : RoutesToLongest r q) : Reachable r q := by
  intro p hp
  obtain ⟨op, hop⟩ := Option.isSome_iff_exists.mp (h.1.mpr ⟨p, hp.mem, hp.isPrefix⟩)
  obtain ⟨name, hname, hlongest⟩ := h.2 op hop
  obtain rfl := hlongest.unique hp
  rcases lookup_eq_some.mp hop with ⟨o, rfl, hfind⟩ | ⟨hnone, o, rfl, hfind⟩
  · have hmem : name.toList ∈ names r.operations :=
      mem_names.mpr (Std.TreeMap.mem_iff_isSome_getElem?.mpr (by rw [hname]; rfl))
    obtain ⟨l, -, hl, hfree⟩ := findByPrefix_eq_some.mp hfind
    rw [registered_of_longest Set.subset_union_left hp hmem hl] at hfree
    exact .inl ⟨hmem, hfree⟩
  · have hmem : name.toList ∈ names r.remoteOperations :=
      mem_names.mpr (Std.TreeMap.mem_iff_isSome_getElem?.mpr (by rw [hname]; rfl))
    obtain ⟨l, -, hl, hfree⟩ := findByPrefix_eq_some.mp hfind
    rw [registered_of_longest Set.subset_union_right hp hmem hl] at hfree
    exact .inr ⟨hmem, hfree, findByPrefix_eq_none.mp hnone⟩

/-- CORRECT: a target goes to the operation of its longest prefix if and only if that name is
    reachable in the order of the names. -/
theorem routesToLongest_iff_reachable (r : Registry Op RemoteOp) (q : String) :
    RoutesToLongest r q ↔ Reachable r q :=
  ⟨reachable_of_routesToLongest, routesToLongest_of_reachable⟩

/-- `/a` is registered, and so is `/a/b`, which comes before `/a/c`. -/
def blockedRegistry : Registry ℕ ℕ where
  operations := (Std.TreeMap.insert ∅ "/a" 1).insert "/a/b" 2

/-- Nobody answers `/a/c`. -/
theorem blockedRegistry_lost :
    lookup blockedRegistry "/a/c" = none ∧ ¬ RoutesToLongest blockedRegistry "/a/c" := by
  have hnone : lookup blockedRegistry "/a/c" = none := by decide
  refine ⟨hnone, fun h => ?_⟩
  have hsome := h.1.mpr ⟨"/a".toList, .inl (mem_names.mpr (by decide)), by decide⟩
  rw [hnone] at hsome
  cases hsome

end Motis.Module
