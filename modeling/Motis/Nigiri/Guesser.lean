import Mathlib.Algebra.BigOperators.Group.List.Basic
import Mathlib.Algebra.GroupWithZero.Nat
import Mathlib.Algebra.Order.Ring.Unbundled.Rat
import Mathlib.Data.Rat.Defs
import Mathlib.Tactic.Common

/-! The candidates of the station guesser.

    A location without parent becomes a candidate, unless an earlier one took it as an equivalent of
    the same name. The transports of a location count for the candidate of its parent:

        reverse_mapping   location   ──▶ candidate
        mapping           candidate  ──▶ location

    Only parents without a parent are sure to have a candidate. An index outside of the candidates has
    no result. -/

namespace Motis.Nigiri.Guesser

/-! ### Locations -/

structure Route where
  /-- The class of the first section. -/
  clasz : Fin 13
  /-- The number of days of each transport. -/
  trafficDays : List ℕ
  deriving DecidableEq, Repr

structure Location where
  name : String
  parent : Option ℕ
  equivalences : List ℕ
  routes : List Route
  deriving DecidableEq, Repr

section Locations

variable (locations : List Location)

def names (l : ℕ) : String := (locations[l]?.map (·.name)).getD ""

def parents (l : ℕ) : Option ℕ := locations[l]?.bind (·.parent)

def equivalences (l : ℕ) : List ℕ := (locations[l]?.map (·.equivalences)).getD []

def routes (l : ℕ) : List Route := (locations[l]?.map (·.routes)).getD []

/-- The topmost ancestor of a location. -/
inductive Top : ℕ → ℕ → Prop where
  | root {l : ℕ} (h : parents locations l = none) : Top l l
  | child {l p t : ℕ} (h : parents locations l = some p) (ht : Top p t) : Top l t

end Locations

/-- The indices are those of locations, and no location is its own ancestor. -/
structure Timetable where
  locations : List Location
  parent_lt : ∀ l p, parents locations l = some p → p < locations.length
  equivalence_lt : ∀ l, ∀ eq ∈ equivalences locations l, eq < locations.length
  exists_top : ∀ l < locations.length, ∃ t, Top locations l t

/-! ### Candidates -/

structure Assignment where
  reverseMapping : List ℤ
  mapping : List ℕ
  deriving DecidableEq, Repr

/-- The equivalents with the name of a new candidate. -/
def assignEquivalences (locations : List Location) (name : String) (i : ℕ) :
    List ℕ → List ℤ → List ℤ
  | [], reverseMapping => reverseMapping
  | eq :: eqs, reverseMapping =>
    assignEquivalences locations name i eqs
      (if names locations eq = name then reverseMapping.set eq i else reverseMapping)

def assignStep (locations : List Location) (s : Assignment) (l : ℕ) : Assignment :=
  if s.reverseMapping[l]? = some (-1) ∧ parents locations l = none then
    let i := s.mapping.length
    { reverseMapping := assignEquivalences locations (names locations l) i
        (equivalences locations l) (s.reverseMapping.set l i)
      mapping := s.mapping ++ [l] }
  else s

def assign (locations : List Location) : Assignment :=
  (List.range locations.length).foldl (assignStep locations)
    ⟨List.replicate locations.length (-1), []⟩

def prio (clasz : Fin 13) : ℕ := [20, 20, 20, 20, 20, 16, 15, 10, 10, 3, 2, 10, 1][clasz]

def transportCounts (routes : List Route) (clasz : Fin 13) : ℕ :=
  ((routes.filter (·.clasz = clasz)).map (·.trafficDays.sum)).sum

def importance (locations : List Location) (l : ℕ) : ℕ :=
  ((List.finRange 13).map fun clasz =>
    prio clasz * transportCounts (routes locations l) clasz).sum

/-- The index of the candidate that a location counts for. -/
def target (locations : List Location) (s : Assignment) (l : ℕ) : Option ℤ :=
  s.reverseMapping[(parents locations l).getD l]?

def countStep (locations : List Location) (s : Assignment) (candidates : List ℕ) (l : ℕ) :
    Option (List ℕ) := do
  let k ← target locations s l
  if 0 ≤ k ∧ k < candidates.length then
    some (candidates.modify k.toNat (· + importance locations l))
  else none

def countEvents (locations : List Location) (s : Assignment) : Option (List ℕ) :=
  (List.range locations.length).foldlM (countStep locations s) (List.replicate s.mapping.length 0)

/-- The factors lie between 1 and 3. -/
def normalize (names : List String) (importances : List ℕ) : Option (List (String × ℚ)) := do
  let maxIt ← importances.max?
  let maxImportance : ℚ := max maxIt 1
  return names.zip (importances.map fun factor : ℕ => 1 + 2 * ((factor : ℚ) / maxImportance))

structure Candidates where
  candidates : List (String × ℚ)
  mapping : List ℕ
  deriving DecidableEq, Repr

def getCandidates (tt : Timetable) : Option Candidates :=
  if tt.locations.length = 0 then some ⟨[], []⟩
  else do
    let s := assign tt.locations
    let importances ← countEvents tt.locations s
    let candidates ← normalize (s.mapping.map (names tt.locations)) importances
    return { candidates, mapping := s.mapping }

/-! ### The candidate of a location -/

/-- A candidate takes itself and its equivalents with the same name. -/
def takes (locations : List Location) (r x : ℕ) : Bool :=
  r = x || (x ∈ equivalences locations r && names locations x = names locations r)

/-- The locations below `m` without parent that no earlier candidate takes. -/
def candidatesBelow (locations : List Location) : ℕ → List ℕ
  | 0 => []
  | m + 1 =>
    if parents locations m = none ∧ ∀ r ∈ candidatesBelow locations m, takes locations r m = false
    then candidatesBelow locations m ++ [m]
    else candidatesBelow locations m

/-- The last candidate below `m` that takes a location. -/
def lastTaker (locations : List Location) (m x : ℕ) : Option ℕ :=
  ((candidatesBelow locations m).filter (takes locations · x)).getLast?

/-- The topmost ancestor, or a root of its name that it is equivalent to. -/
def Home (locations : List Location) (l r : ℕ) : Prop :=
  ∃ t, Top locations l t ∧ (r = t ∨
    parents locations r = none ∧ names locations r = names locations t ∧
      t ∈ equivalences locations r)

/-- Each location counts for the candidate of its home, and candidates are roots. -/
structure Correct (tt : Timetable) (result : Candidates) (importances : List ℕ) : Prop where
  counted : countEvents tt.locations (assign tt.locations) = some importances
  length_eq : importances.length = result.mapping.length
  home : ∀ l < tt.locations.length, ∃ k : ℕ, target tt.locations (assign tt.locations) l = some k ∧
    ∃ r, result.mapping[k]? = some r ∧ Home tt.locations l r
  sums : ∀ k < result.mapping.length, importances[k]? =
    some (((List.range tt.locations.length).filter
      (target tt.locations (assign tt.locations) · = some (k : ℤ))).map
        (importance tt.locations)).sum
  root : ∀ k r : ℕ, result.mapping[k]? = some r → r < tt.locations.length ∧
    parents tt.locations r = none ∧
      result.candidates[k]?.map Prod.fst = some (names tt.locations r)

section Assign

variable {locations : List Location}

theorem Top.unique {l t t' : ℕ} (h : Top locations l t) (h' : Top locations l t') : t = t' := by
  induction h with
  | root h =>
    cases h' with
    | root => rfl
    | child hp => cases h.symm.trans hp
  | child h _ ih =>
    cases h' with
    | root hp => cases h.symm.trans hp
    | child hp ht =>
      obtain rfl := Option.some.inj (h.symm.trans hp)
      exact ih ht

theorem length_assignEquivalences (name : String) (i : ℕ) (eqs : List ℕ) (m : List ℤ) :
    (assignEquivalences locations name i eqs m).length = m.length := by
  induction eqs generalizing m with
  | nil => rfl
  | cons eq eqs ih =>
    rw [assignEquivalences, ih]
    split_ifs
    · exact List.length_set
    · rfl

theorem getElem?_assignEquivalences (name : String) (i : ℕ) (eqs : List ℕ) {m : List ℤ} {x : ℕ}
    (hx : x < m.length) :
    (assignEquivalences locations name i eqs m)[x]? =
      if x ∈ eqs ∧ names locations x = name then some (i : ℤ) else m[x]? := by
  induction eqs generalizing m with
  | nil => simp [assignEquivalences]
  | cons eq eqs ih =>
    rw [assignEquivalences, ih (by split_ifs <;> simpa using hx)]
    by_cases hrest : x ∈ eqs ∧ names locations x = name
    · rw [if_pos hrest, if_pos ⟨List.mem_cons_of_mem _ hrest.1, hrest.2⟩]
    · rw [if_neg hrest]
      by_cases heq : names locations eq = name
      · rw [if_pos heq, List.getElem?_set]
        by_cases hxe : eq = x
        · rw [if_pos hxe, if_pos (hxe ▸ hx), if_pos ⟨by rw [hxe]; exact List.mem_cons_self,
            hxe ▸ heq⟩]
        · rw [if_neg hxe, if_neg]
          rintro ⟨hmem, hname⟩
          rcases List.mem_cons.mp hmem with rfl | hmem
          · exact hxe rfl
          · exact hrest ⟨hmem, hname⟩
      · rw [if_neg heq, if_neg]
        rintro ⟨hmem, hname⟩
        rcases List.mem_cons.mp hmem with rfl | hmem
        · exact heq hname
        · exact hrest ⟨hmem, hname⟩

theorem lt_of_mem_candidatesBelow {m r : ℕ} (h : r ∈ candidatesBelow locations m) : r < m := by
  induction m with
  | zero => cases h
  | succ m ih =>
    rw [candidatesBelow] at h
    split_ifs at h
    · rcases List.mem_append.mp h with h | h
      · exact (ih h).trans (Nat.lt_succ_self m)
      · rw [List.mem_singleton.mp h]
        exact Nat.lt_succ_self m
    · exact (ih h).trans (Nat.lt_succ_self m)

theorem root_of_mem_candidatesBelow {m r : ℕ} (h : r ∈ candidatesBelow locations m) :
    parents locations r = none := by
  induction m with
  | zero => cases h
  | succ m ih =>
    rw [candidatesBelow] at h
    split_ifs at h with hnew
    · rcases List.mem_append.mp h with h | h
      · exact ih h
      · rw [List.mem_singleton.mp h]
        exact hnew.1
    · exact ih h

theorem lastTaker_eq_none {m x : ℕ} :
    lastTaker locations m x = none ↔
      ∀ r ∈ candidatesBelow locations m, takes locations r x = false := by
  rw [lastTaker, List.getLast?_eq_none_iff, List.filter_eq_nil_iff]
  simp only [Bool.not_eq_true]

theorem of_lastTaker {m x r : ℕ} (h : lastTaker locations m x = some r) :
    r ∈ candidatesBelow locations m ∧ takes locations r x = true :=
  List.mem_filter.mp (List.mem_of_getLast? h)

/-- What the first `m` locations have been assigned to. -/
structure Assigned (locations : List Location) (m : ℕ) (s : Assignment) : Prop where
  mapping : s.mapping = candidatesBelow locations m
  length_eq : s.reverseMapping.length = locations.length
  free : ∀ x < locations.length, lastTaker locations m x = none →
    s.reverseMapping[x]? = some (-1)
  taken : ∀ x < locations.length, ∀ r, lastTaker locations m x = some r →
    ∃ k : ℕ, s.reverseMapping[x]? = some (k : ℤ) ∧ s.mapping[k]? = some r

theorem assigned_step {m : ℕ} {s : Assignment} (h : Assigned locations m s)
    (hm : m < locations.length) : Assigned locations (m + 1) (assignStep locations s m) := by
  have hnew : s.reverseMapping[m]? = some (-1) ↔
      ∀ r ∈ candidatesBelow locations m, takes locations r m = false := by
    rw [← lastTaker_eq_none]
    constructor
    · intro hfree
      by_contra htaken
      obtain ⟨r, hr⟩ := Option.ne_none_iff_exists'.mp htaken
      obtain ⟨k, hk, -⟩ := h.taken m hm r hr
      have hneg : (-1 : ℤ) = k := Option.some.inj (hfree.symm.trans hk)
      omega
    · exact h.free m hm
  rw [assignStep]
  by_cases hcond : s.reverseMapping[m]? = some (-1) ∧ parents locations m = none
  · have hbelow : candidatesBelow locations (m + 1) = candidatesBelow locations m ++ [m] := by
      rw [candidatesBelow, if_pos ⟨hcond.2, hnew.mp hcond.1⟩]
    have hlast : ∀ x, lastTaker locations (m + 1) x =
        if takes locations m x then some m else lastTaker locations m x := by
      intro x
      rw [lastTaker, hbelow, List.filter_append, lastTaker]
      split_ifs with htakes
      · simp [htakes]
      · simp [htakes]
    have hvalue : ∀ x < locations.length,
        (assignEquivalences locations (names locations m) s.mapping.length
          (equivalences locations m) (s.reverseMapping.set m s.mapping.length))[x]? =
          if takes locations m x then some (s.mapping.length : ℤ) else s.reverseMapping[x]? := by
      intro x hx
      rw [getElem?_assignEquivalences _ _ _ (by rw [List.length_set, h.length_eq]; exact hx),
        List.getElem?_set, takes]
      by_cases hmx : m = x
      · simp [hmx, h.length_eq, hx]
      · simp [hmx]
    rw [if_pos hcond]
    refine ⟨?_, ?_, ?_, ?_⟩
    · rw [hbelow, ← h.mapping]
    · rw [length_assignEquivalences, List.length_set, h.length_eq]
    · intro x hx hnone
      rw [hlast] at hnone
      rw [hvalue x hx]
      split_ifs at hnone ⊢
      exact h.free x hx hnone
    · intro x hx r hr
      rw [hlast] at hr
      rw [hvalue x hx]
      split_ifs at hr ⊢ with htakes
      · obtain rfl := Option.some.inj hr
        refine ⟨s.mapping.length, rfl, ?_⟩
        simp
      · obtain ⟨k, hk, hmap⟩ := h.taken x hx r hr
        refine ⟨k, hk, ?_⟩
        rw [List.getElem?_append_left (List.getElem?_eq_some_iff.mp hmap).1, hmap]
  · have hbelow : candidatesBelow locations (m + 1) = candidatesBelow locations m := by
      rw [candidatesBelow, if_neg]
      rintro ⟨hroot, hfree⟩
      exact hcond ⟨hnew.mpr hfree, hroot⟩
    rw [if_neg hcond]
    refine ⟨by rw [hbelow, h.mapping], h.length_eq, ?_, ?_⟩
    · intro x hx hnone
      rw [lastTaker, hbelow] at hnone
      exact h.free x hx hnone
    · intro x hx r hr
      rw [lastTaker, hbelow] at hr
      exact h.taken x hx r hr

theorem assigned_assign (locations : List Location) :
    Assigned locations locations.length (assign locations) := by
  have hrun : ∀ m ≤ locations.length, Assigned locations m
      ((List.range m).foldl (assignStep locations)
        ⟨List.replicate locations.length (-1), []⟩) := by
    intro m
    induction m with
    | zero =>
      intro _
      refine ⟨rfl, List.length_replicate, fun x hx _ => ?_, fun x hx r hr => by cases hr⟩
      exact List.getElem?_replicate.trans (if_pos hx)
    | succ m ih =>
      intro hm
      rw [List.range_succ, List.foldl_append]
      exact assigned_step (ih (by omega)) hm
  exact hrun _ le_rfl

/-! ### Homes -/

theorem mem_candidatesBelow_of_le {m n r : ℕ} (hmn : m ≤ n) (h : r ∈ candidatesBelow locations m) :
    r ∈ candidatesBelow locations n := by
  induction hmn with
  | refl => exact h
  | step _ ih =>
    rw [candidatesBelow]
    split_ifs
    · exact List.mem_append_left _ ih
    · exact ih

/-- A root is taken, at the latest by itself. -/
theorem exists_lastTaker {n l : ℕ} (hl : l < n) (hroot : parents locations l = none) :
    ∃ r, lastTaker locations n l = some r := by
  rw [← Option.ne_none_iff_exists', Ne, lastTaker_eq_none]
  intro hfree
  have hself : l ∈ candidatesBelow locations (l + 1) := by
    rw [candidatesBelow, if_pos ⟨hroot, fun r hr => hfree r (mem_candidatesBelow_of_le hl.le hr)⟩]
    exact List.mem_append_right _ (List.mem_singleton_self l)
  have hnot := hfree l (mem_candidatesBelow_of_le hl hself)
  simp [takes] at hnot

theorem takes_iff {r x : ℕ} : takes locations r x = true ↔
    r = x ∨ x ∈ equivalences locations r ∧ names locations x = names locations r := by
  simp [takes]

/-- What takes the root of a location is a home. -/
theorem home_of_lastTaker {n l x r : ℕ} (htop : Top locations l x)
    (h : lastTaker locations n x = some r) : Home locations l r := by
  obtain ⟨hmem, htakes⟩ := of_lastTaker h
  refine ⟨x, htop, ?_⟩
  rcases takes_iff.mp htakes with hrx | ⟨heq, hname⟩
  · exact .inl hrx
  · exact .inr ⟨root_of_mem_candidatesBelow hmem, hname.symm, heq⟩

end Assign

section Count

variable {tt : Timetable}

theorem parent_getD_lt {l : ℕ} (hl : l < tt.locations.length) :
    (parents tt.locations l).getD l < tt.locations.length := by
  cases hp : parents tt.locations l with
  | none => exact hl
  | some p => exact tt.parent_lt l p hp

/-- The index of a location is that of the last candidate that takes its parent. -/
theorem target_eq {l r : ℕ} (hl : l < tt.locations.length)
    (h : lastTaker tt.locations tt.locations.length ((parents tt.locations l).getD l) = some r) :
    ∃ k : ℕ, target tt.locations (assign tt.locations) l = some (k : ℤ) ∧
      (assign tt.locations).mapping[k]? = some r :=
  (assigned_assign tt.locations).taken _ (parent_getD_lt hl) r h

theorem countStep_eq {s : Assignment} {candidates : List ℕ} {l k : ℕ}
    (h : target tt.locations s l = some (k : ℤ)) (hk : k < candidates.length) :
    countStep tt.locations s candidates l =
      some (candidates.modify k (· + importance tt.locations l)) := by
  rw [countStep, h]
  exact if_pos ⟨Int.natCast_nonneg k, Int.ofNat_lt.mpr hk⟩

/-- Each location adds to its candidate. -/
theorem foldlM_countStep {s : Assignment} (ls candidates : List ℕ)
    (h : ∀ l ∈ ls, ∃ k : ℕ, target tt.locations s l = some (k : ℤ) ∧ k < candidates.length) :
    ∃ importances, ls.foldlM (countStep tt.locations s) candidates = some importances ∧
      importances.length = candidates.length ∧
      ∀ k : ℕ, importances[k]? = candidates[k]?.map (· + ((ls.filter
        (target tt.locations s · = some (k : ℤ))).map (importance tt.locations)).sum) := by
  induction ls generalizing candidates with
  | nil => exact ⟨candidates, rfl, rfl, fun k => by simp⟩
  | cons l ls ih =>
    obtain ⟨⟨k, hk, hlt⟩, h⟩ := List.forall_mem_cons.mp h
    obtain ⟨importances, hrun, hlength, hsums⟩ := ih
      (candidates.modify k (· + importance tt.locations l)) fun l' hl' => by
        rw [List.length_modify]
        exact h l' hl'
    refine ⟨importances, ?_, hlength.trans (List.length_modify ..), fun j => ?_⟩
    · rw [List.foldlM_cons, countStep_eq hk hlt]
      exact hrun
    · rw [hsums, List.getElem?_modify, List.filter_cons]
      by_cases hjk : k = j
      · subst hjk
        rw [if_pos (by simpa using hk), List.map_cons, List.sum_cons]
        cases candidates[k]? with
        | none => rfl
        | some c => simp [Nat.add_assoc]
      · rw [if_neg (by simpa [hk] using fun heq : (k : ℤ) = j => hjk (Int.ofNat.inj heq))]
        cases candidates[j]? with
        | none => rfl
        | some c => simp [hjk]

end Count

/-- A parent that has a parent is taken, and last by a home of its children. -/
def ParentsTaken (tt : Timetable) : Prop :=
  ∀ l p g, parents tt.locations l = some p → parents tt.locations p = some g →
    ∃ r, lastTaker tt.locations tt.locations.length p = some r ∧ Home tt.locations l r

section Correctness

variable {tt : Timetable}

theorem lt_of_parent {l p : ℕ} (h : parents tt.locations l = some p) :
    l < tt.locations.length := by
  by_contra hl
  rw [parents, List.getElem?_eq_none (not_lt.mp hl)] at h
  cases h

theorem exists_home (h : ParentsTaken tt) {l : ℕ} (hl : l < tt.locations.length) :
    ∃ r, lastTaker tt.locations tt.locations.length ((parents tt.locations l).getD l) = some r ∧
      Home tt.locations l r := by
  cases hp : parents tt.locations l with
  | none =>
    obtain ⟨r, hr⟩ := exists_lastTaker hl hp
    exact ⟨r, hr, home_of_lastTaker (.root hp) hr⟩
  | some p =>
    cases hg : parents tt.locations p with
    | none =>
      obtain ⟨r, hr⟩ := exists_lastTaker (tt.parent_lt l p hp) hg
      exact ⟨r, hr, home_of_lastTaker (.child hp (.root hg)) hr⟩
    | some g => exact h l p g hp hg

theorem top_lt {l t : ℕ} (h : Top tt.locations l t) (hl : l < tt.locations.length) :
    t < tt.locations.length := by
  induction h with
  | root => exact hl
  | child hp _ ih => exact ih (tt.parent_lt _ _ hp)

theorem top_root {l t : ℕ} (h : Top tt.locations l t) : parents tt.locations t = none := by
  induction h with
  | root h => exact h
  | child _ _ ih => exact ih

theorem mapping_ne_nil (hn : 0 < tt.locations.length) :
    (assign tt.locations).mapping ≠ [] := by
  obtain ⟨t, ht⟩ := tt.exists_top 0 hn
  obtain ⟨r, hr⟩ := exists_lastTaker (top_lt ht hn) (top_root ht)
  rw [(assigned_assign tt.locations).mapping]
  exact List.ne_nil_of_mem (of_lastTaker hr).1

theorem root_of_mapping {k r : ℕ} (h : (assign tt.locations).mapping[k]? = some r) :
    r < tt.locations.length ∧ parents tt.locations r = none := by
  rw [(assigned_assign tt.locations).mapping] at h
  have hmem := List.mem_of_getElem? h
  exact ⟨lt_of_mem_candidatesBelow hmem, root_of_mem_candidatesBelow hmem⟩

theorem normalize_eq {importances : List ℕ} (names : List String) (hne : importances ≠ [])
    (hlength : names.length = importances.length) :
    ∃ candidates, normalize names importances = some candidates ∧
      candidates.map Prod.fst = names := by
  cases hmax : importances.max? with
  | none => exact absurd (List.max?_eq_none_iff.mp hmax) hne
  | some maxIt =>
    refine ⟨_, by rw [normalize, hmax]; rfl, List.map_fst_zip ?_⟩
    rw [List.length_map, hlength]

theorem correct_of_parentsTaken (h : ParentsTaken tt) :
    ∃ result importances, getCandidates tt = some result ∧ Correct tt result importances := by
  have hhome : ∀ l < tt.locations.length, ∃ k : ℕ,
      target tt.locations (assign tt.locations) l = some (k : ℤ) ∧
        ∃ r, (assign tt.locations).mapping[k]? = some r ∧ Home tt.locations l r := by
    intro l hl
    obtain ⟨r, hr, hrhome⟩ := exists_home h hl
    obtain ⟨k, hk, hmap⟩ := target_eq hl hr
    exact ⟨k, hk, r, hmap, hrhome⟩
  obtain ⟨importances, hrun, hlength, hsums⟩ := foldlM_countStep
    (List.range tt.locations.length)
    (List.replicate (assign tt.locations).mapping.length 0) fun l hl => by
      obtain ⟨k, hk, r, hmap, -⟩ := hhome l (List.mem_range.mp hl)
      refine ⟨k, hk, ?_⟩
      rw [List.length_replicate]
      exact (List.getElem?_eq_some_iff.mp hmap).1
  rw [List.length_replicate] at hlength
  have hsums' : ∀ k < (assign tt.locations).mapping.length, importances[k]? =
      some (((List.range tt.locations.length).filter
        (target tt.locations (assign tt.locations) · = some (k : ℤ))).map
          (importance tt.locations)).sum := by
    intro k hk
    rw [hsums, List.getElem?_replicate, if_pos hk, Option.map_some, Nat.zero_add]
  by_cases hn : tt.locations.length = 0
  · have hempty : (assign tt.locations).mapping = [] := by
      rw [assign, hn]
      rfl
    rw [hempty] at hlength hsums'
    refine ⟨⟨[], []⟩, importances, by rw [getCandidates, if_pos hn], hrun, hlength, ?_, hsums', ?_⟩
    · intro l hl
      omega
    · intro k r hr
      cases hr
  · have hne : importances ≠ [] := by
      intro hnil
      refine mapping_ne_nil (Nat.pos_of_ne_zero hn) (List.length_eq_zero_iff.mp ?_)
      rw [← hlength, hnil]
      rfl
    obtain ⟨candidates, hcandidates, hnames⟩ := normalize_eq
      ((assign tt.locations).mapping.map (names tt.locations)) hne
      (by rw [List.length_map, hlength])
    refine ⟨⟨candidates, (assign tt.locations).mapping⟩, importances, ?_, hrun, hlength, hhome,
      hsums', fun k r hr => ⟨(root_of_mapping hr).1, (root_of_mapping hr).2, ?_⟩⟩
    · rw [getCandidates, if_neg hn]
      change (countEvents tt.locations (assign tt.locations)).bind _ = _
      rw [countEvents, hrun]
      change (normalize _ importances).bind _ = _
      rw [hcandidates]
      rfl
    · change candidates[k]?.map Prod.fst = _
      rw [← List.getElem?_map, hnames, List.getElem?_map]
      exact congrArg (Option.map (names tt.locations)) hr

theorem mapping_of_getCandidates {result : Candidates} (hn : 0 < tt.locations.length)
    (h : getCandidates tt = some result) : result.mapping = (assign tt.locations).mapping := by
  rw [getCandidates, if_neg hn.ne'] at h
  change (countEvents tt.locations (assign tt.locations)).bind _ = _ at h
  obtain ⟨importances, -, h⟩ := Option.bind_eq_some_iff.mp h
  obtain ⟨candidates, -, h⟩ := Option.bind_eq_some_iff.mp h
  rw [← Option.some.inj h]

/-- The track of a platform of a station. -/
def threeLevels : Timetable where
  locations := [⟨"A", none, [], []⟩, ⟨"A, 1", some 0, [], []⟩, ⟨"A, 1a", some 1, [], []⟩]
  parent_lt := by
    rintro (_ | _ | _ | l) p hp
    · cases hp
    · obtain rfl := Option.some.inj hp
      decide
    · obtain rfl := Option.some.inj hp
      decide
    · simp [parents] at hp
  equivalence_lt := by
    rintro (_ | _ | _ | l) eq heq <;> simp [equivalences] at heq
  exists_top := by
    have hroot : parents [⟨"A", none, [], []⟩, ⟨"A, 1", some 0, [], []⟩,
      ⟨"A, 1a", some 1, [], []⟩] 0 = none := rfl
    rintro (_ | _ | _ | l) hl
    · exact ⟨0, .root hroot⟩
    · exact ⟨0, .child rfl (.root hroot)⟩
    · exact ⟨0, .child rfl (.child rfl (.root hroot))⟩
    · simp at hl
      omega

end Correctness

end Motis.Nigiri.Guesser
