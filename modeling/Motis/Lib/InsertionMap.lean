import Mathlib.Data.List.Nodup
import Mathlib.Tactic.Common

/-! Maps in the order of insertion.

    A new key is appended, a known key keeps its place:

        [a ↦ 1, b ↦ 2]   set b 5   [a ↦ 1, b ↦ 5]   set c 7   [a ↦ 1, b ↦ 5, c ↦ 7] -/

namespace InsertionMap

variable {κ β : Type} [DecidableEq κ]

def set (m : List (κ × β)) (key : κ) (value : β) : List (κ × β) :=
  if key ∈ m.map (·.1) then m.map fun e => if e.1 = key then (key, value) else e
  else m ++ [(key, value)]

theorem set_of_notMem {m : List (κ × β)} {key : κ} (h : key ∉ m.map (·.1)) (value : β) :
    set m key value = m ++ [(key, value)] := by
  rw [set, if_neg h]

theorem mem_set {m : List (κ × β)} {key : κ} {value : β} {e : κ × β} (h : e ∈ set m key value) :
    e = (key, value) ∨ e ∈ m := by
  rw [set] at h
  split at h
  · obtain ⟨e', he', rfl⟩ := List.mem_map.mp h
    split
    · exact .inl rfl
    · exact .inr he'
  · rcases List.mem_append.mp h with h | h
    · exact .inr h
    · exact .inl (List.mem_singleton.mp h)

/-- New keys are appended in their order. -/
theorem foldl_set {m l : List (κ × β)} (h : ((m ++ l).map (·.1)).Nodup) :
    l.foldl (fun m e => set m e.1 e.2) m = m ++ l := by
  induction l generalizing m with
  | nil => simp
  | cons e l ih =>
    have hnew : e.1 ∉ m.map (·.1) := by
      rw [List.map_append, List.map_cons, List.nodup_middle, List.nodup_cons] at h
      exact fun hmem => h.1 (List.mem_append_left _ hmem)
    rw [List.foldl_cons, set_of_notMem hnew, ih (by simpa using h)]
    simp

/-- A key of a map has one value. -/
theorem value_unique {κ : Type} {m : List (κ × β)} (h : (m.map (·.1)).Nodup) {key : κ} {value value' : β}
    (hmem : (key, value) ∈ m) (hmem' : (key, value') ∈ m) : value = value' := by
  have heq := List.inj_on_of_nodup_map h hmem hmem' rfl
  exact (Prod.mk.inj heq).2

theorem lookup_eq_some {κ : Type} [BEq κ] [LawfulBEq κ] {m : List (κ × β)}
    (h : (m.map (·.1)).Nodup) {key : κ} {value : β} :
    m.lookup key = some value ↔ (key, value) ∈ m := by
  induction m with
  | nil => simp
  | cons e m ih =>
    obtain ⟨hnew, hnodup⟩ := List.nodup_cons.mp h
    rw [List.lookup_cons]
    by_cases hkey : key = e.1
    · rw [beq_iff_eq.mpr hkey]
      constructor
      · intro hsome
        obtain rfl := Option.some.inj hsome
        simp [hkey]
      · intro hmem
        have hhead : (key, e.2) ∈ e :: m := by simp [hkey]
        have heq := value_unique h hmem hhead
        rw [heq]
    · rw [beq_false_of_ne hkey]
      rw [ih hnodup, List.mem_cons]
      constructor
      · exact .inr
      · rintro (rfl | hmem)
        · exact absurd rfl hkey
        · exact hmem

end InsertionMap
