import Mathlib.Data.List.Induction
import Motis.Lib.InsertionMap

/-! Updates of a map, key by key.

    The value of a key is computed from the one before, together with a result:

        m   ──a──▶   set m a v   ──b──▶   …        results c a, c b, …

    When the values do not change if they are computed again, neither does the map. -/

namespace InsertionMap

variable {κ β γ ε : Type} [DecidableEq κ]

theorem keys_set (m : List (κ × β)) (key : κ) (value : β) :
    (set m key value).map (·.1) =
      if key ∈ m.map (·.1) then m.map (·.1) else m.map (·.1) ++ [key] := by
  rw [set]
  split_ifs with hmem
  · rw [List.map_map]
    refine List.map_congr_left fun e _ => ?_
    rw [Function.comp_apply]
    split_ifs with hkey
    · exact hkey.symm
    · rfl
  · exact List.map_append

theorem nodup_set {m : List (κ × β)} (h : (m.map (·.1)).Nodup) (key : κ) (value : β) :
    ((set m key value).map (·.1)).Nodup := by
  rw [keys_set]
  split_ifs with hmem
  · exact h
  · rw [List.nodup_append]
    refine ⟨h, List.nodup_singleton key, fun a ha b hb => ?_⟩
    rw [List.mem_singleton.mp hb]
    rintro rfl
    exact hmem ha

theorem lookup_set_self (m : List (κ × β)) (key : κ) (value : β) :
    (set m key value).lookup key = some value := by
  rw [set]
  split_ifs with hmem
  · induction m with
    | nil => cases hmem
    | cons e m ih =>
      rw [List.map_cons, List.lookup_cons]
      by_cases hkey : e.1 = key
      · rw [if_pos hkey, beq_self_eq_true]
      · rw [if_neg hkey, beq_false_of_ne (Ne.symm hkey)]
        refine ih ((List.mem_cons.mp hmem).resolve_left (Ne.symm hkey))
  · rw [List.lookup_append, List.lookup_eq_none_iff.mpr]
    · simp
    · intro e he
      rw [bne_iff_ne]
      rintro rfl
      exact hmem (List.mem_map_of_mem he)

theorem lookup_set_of_ne {m : List (κ × β)} {key key' : κ} (h : key' ≠ key) (value : β) :
    (set m key value).lookup key' = m.lookup key' := by
  rw [set]
  split_ifs with hmem
  · clear hmem
    induction m with
    | nil => rfl
    | cons e m ih =>
      rw [List.map_cons, List.lookup_cons, List.lookup_cons, ih]
      split_ifs with hkey
      · rw [beq_false_of_ne h, hkey, beq_false_of_ne h]
      · rfl
  · rw [List.lookup_append]
    cases m.lookup key' with
    | none => simp [h]
    | some v => rfl

theorem set_eq_self {m : List (κ × β)} (h : (m.map (·.1)).Nodup) {key : κ} {value : β}
    (hlookup : m.lookup key = some value) : set m key value = m := by
  have hmem := (lookup_eq_some h).mp hlookup
  rw [set, if_pos (List.mem_map_of_mem hmem)]
  refine (List.map_congr_left fun e he => ?_).trans (List.map_id m)
  split_ifs with hkey
  · obtain ⟨k, v⟩ := e
    obtain rfl : k = key := hkey
    rw [value_unique h he hmem]
    rfl
  · rfl

theorem isSome_lookup {m : List (κ × β)} {key : κ} :
    (m.lookup key).isSome = true ↔ key ∈ m.map (·.1) := by
  induction m with
  | nil => simp
  | cons e m ih =>
    rw [List.lookup_cons, List.map_cons, List.mem_cons]
    by_cases hkey : key = e.1
    · simp [hkey]
    · rw [beq_false_of_ne hkey, ih]
      exact (or_iff_right hkey).symm

theorem lookup_filter {p : κ → Bool} {key : κ} (h : p key = true) (m : List (κ × β)) :
    (m.filter fun e => p e.1).lookup key = m.lookup key := by
  induction m with
  | nil => rfl
  | cons e m ih =>
    rw [List.lookup_cons]
    by_cases hkey : key = e.1
    · have he : p e.1 = true := hkey ▸ h
      rw [List.filter_cons, if_pos he, List.lookup_cons, hkey, beq_self_eq_true]
    · rw [beq_false_of_ne hkey, ← ih, List.filter_cons]
      split_ifs with he
      · rw [List.lookup_cons, beq_false_of_ne hkey]
      · rfl

theorem nodup_filter {κ : Type} {m : List (κ × β)} (h : (m.map (·.1)).Nodup) (p : κ × β → Bool) :
    ((m.filter p).map (·.1)).Nodup :=
  h.sublist ((List.filter_sublist).map _)

/-! ### Groups -/

section Group

variable {α : Type}

/-- An element is added to what there is for its key. -/
def addToGroup (key : α → κ) (new : α → β) (add : β → α → β) (m : List (κ × β)) (a : α) :
    List (κ × β) :=
  set m (key a) (add ((m.lookup (key a)).getD (new a)) a)

variable {key : α → κ} {new : α → β} {add : β → α → β}

theorem nodup_groups (l : List α) :
    ((l.foldl (addToGroup key new add) []).map (·.1)).Nodup := by
  induction l using List.reverseRecOn with
  | nil => exact List.nodup_nil
  | append_singleton l a ih =>
    rw [List.foldl_append]
    exact nodup_set ih _ _

/-- What there is for a key is made of its elements, in their order. -/
theorem lookup_groups (init : κ → β) {l : List α} (hnew : ∀ a ∈ l, new a = init (key a)) (k : κ) :
    (l.foldl (addToGroup key new add) []).lookup k =
      if k ∈ l.map key then some ((l.filter (key · = k)).foldl add (init k)) else none := by
  induction l using List.reverseRecOn with
  | nil => rfl
  | append_singleton l a ih =>
    obtain ⟨hl, ha⟩ := List.forall_mem_append.mp hnew
    have hnew' := List.forall_mem_singleton.mp ha
    rw [List.foldl_append, List.foldl_cons, List.foldl_nil, addToGroup, List.filter_append,
      List.foldl_append, List.map_append, List.map_singleton]
    by_cases hk : k = key a
    · have hgroup : ((l.foldl (addToGroup key new add) []).lookup k).getD (new a) =
          (l.filter (key · = k)).foldl add (init k) := by
        rw [ih hl, hnew', ← hk]
        split_ifs with hmem
        · rfl
        · rw [List.filter_eq_nil_iff.mpr]
          · rfl
          · intro b hb hkey
            exact hmem (List.mem_map.mpr ⟨b, hb, of_decide_eq_true hkey⟩)
      rw [← hk, lookup_set_self, hgroup, if_pos (List.mem_append_right _ (by simp)),
        List.filter_singleton, decide_eq_true hk.symm]
      rfl
    · rw [lookup_set_of_ne hk, ih hl, List.filter_singleton, decide_eq_false (Ne.symm hk)]
      simp [hk]

end Group

/-! ### Updates -/

/-- The keys get their values one after the other. -/
def updateKeys (f : κ → Option β → Except ε (γ × β)) :
    List κ → List (κ × β) → Except ε (List γ × List (κ × β))
  | [], m => .ok ([], m)
  | key :: keys, m => do
    let (c, v) ← f key (m.lookup key)
    let (cs, m) ← updateKeys f keys (set m key v)
    return (c :: cs, m)

variable {f : κ → Option β → Except ε (γ × β)} {c : κ → γ} {v : κ → β}

theorem updateKeys_cons {key : κ} {keys : List κ} {m : List (κ × β)} {d : γ} {w : β}
    (h : f key (m.lookup key) = .ok (d, w)) :
    updateKeys f (key :: keys) m =
      (updateKeys f keys (set m key w)).map fun r => (d :: r.1, r.2) := by
  rw [updateKeys, h]
  change (updateKeys f keys (set m key w)).bind _ = _
  cases updateKeys f keys (set m key w) <;> rfl

/-- Each key has its value after the run, also when it is updated again. -/
theorem updateKeys_spec {keys : List κ} {m : List (κ × β)}
    (h : ∀ key ∈ keys, f key (m.lookup key) = .ok (c key, v key))
    (hidem : ∀ key ∈ keys, f key (some (v key)) = .ok (c key, v key))
    (hnodup : (m.map (·.1)).Nodup) :
    ∃ m', updateKeys f keys m = .ok (keys.map c, m') ∧ (m'.map (·.1)).Nodup ∧
      ∀ key, m'.lookup key = if key ∈ keys then some (v key) else m.lookup key := by
  induction keys generalizing m with
  | nil => exact ⟨m, rfl, hnodup, fun key => by simp⟩
  | cons key keys ih =>
    have hkey := h key List.mem_cons_self
    have hrest : ∀ key' ∈ keys,
        f key' ((set m key (v key)).lookup key') = .ok (c key', v key') := by
      intro key' hmem
      by_cases heq : key' = key
      · rw [heq, lookup_set_self]
        exact hidem key List.mem_cons_self
      · rw [lookup_set_of_ne heq]
        exact h key' (List.mem_cons_of_mem _ hmem)
    obtain ⟨m', hrun, hnodup', hlookup⟩ := ih hrest
      (fun key' hmem => hidem key' (List.mem_cons_of_mem _ hmem)) (nodup_set hnodup key (v key))
    refine ⟨m', ?_, hnodup', fun key' => ?_⟩
    · rw [updateKeys_cons hkey, hrun]
      rfl
    · rw [hlookup]
      by_cases hmem : key' ∈ keys
      · rw [if_pos hmem, if_pos (List.mem_cons_of_mem _ hmem)]
      · rw [if_neg hmem]
        by_cases heq : key' = key
        · rw [heq, lookup_set_self, if_pos List.mem_cons_self]
        · rw [lookup_set_of_ne heq, if_neg]
          exact fun hcons => (List.mem_cons.mp hcons).elim heq hmem

/-- A map whose values stay is not changed. -/
theorem updateKeys_fixed {keys : List κ} {m : List (κ × β)}
    (h : ∀ key ∈ keys, m.lookup key = some (v key) ∧ f key (some (v key)) = .ok (c key, v key))
    (hnodup : (m.map (·.1)).Nodup) : updateKeys f keys m = .ok (keys.map c, m) := by
  induction keys with
  | nil => rfl
  | cons key keys ih =>
    obtain ⟨hlookup, hkey⟩ := h key List.mem_cons_self
    have hstay := set_eq_self hnodup hlookup
    rw [← hlookup] at hkey
    rw [updateKeys_cons hkey, hstay, ih fun key' hmem => h key' (List.mem_cons_of_mem _ hmem)]
    rfl

/-- The keys that are kept are updated, and once more without a change. -/
theorem updateKeys_filter {keep : κ → Bool} {keys : List κ} {m : List (κ × β)}
    (hkeep : ∀ key ∈ keys, keep key = true)
    (hknown : ∀ key ∈ m.map (·.1), keep key = true → key ∈ keys)
    (h : ∀ key ∈ keys, f key (m.lookup key) = .ok (c key, v key))
    (hidem : ∀ key ∈ keys, f key (some (v key)) = .ok (c key, v key))
    (hnodup : (m.map (·.1)).Nodup) :
    ∃ m', updateKeys f keys (m.filter fun e => keep e.1) = .ok (keys.map c, m') ∧
      updateKeys f keys (m'.filter fun e => keep e.1) = .ok (keys.map c, m') ∧
      (m'.map (·.1)).Nodup ∧ (∀ key, key ∈ m'.map (·.1) ↔ key ∈ keys) ∧
      ∀ key ∈ keys, m'.lookup key = some (v key) := by
  have hfirst : ∀ key ∈ keys,
      f key ((m.filter fun e => keep e.1).lookup key) = .ok (c key, v key) := by
    intro key hkey
    rw [lookup_filter (hkeep key hkey)]
    exact h key hkey
  obtain ⟨m', hrun, hnodup', hlookup⟩ := updateKeys_spec hfirst hidem (nodup_filter hnodup _)
  have hvalue : ∀ key ∈ keys, m'.lookup key = some (v key) := fun key hkey => by
    rw [hlookup, if_pos hkey]
  have hkeys : ∀ key, key ∈ m'.map (·.1) ↔ key ∈ keys := by
    intro key
    rw [← isSome_lookup, hlookup]
    split_ifs with hmem
    · exact iff_of_true rfl hmem
    · rw [isSome_lookup]
      refine iff_of_false (fun hkept => ?_) hmem
      obtain ⟨e, he, rfl⟩ := List.mem_map.mp hkept
      obtain ⟨hm, hkeep'⟩ := List.mem_filter.mp he
      exact hmem (hknown e.1 (List.mem_map_of_mem hm) hkeep')
  have hsame : (m'.filter fun e => keep e.1) = m' :=
    List.filter_eq_self.mpr fun e he => hkeep e.1 ((hkeys e.1).mp (List.mem_map_of_mem he))
  refine ⟨m', hrun, ?_, hnodup', hkeys, hvalue⟩
  rw [hsame]
  exact updateKeys_fixed (fun key hkey => ⟨hvalue key hkey, hidem key hkey⟩) hnodup'

end InsertionMap
