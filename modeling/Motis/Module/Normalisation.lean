import Mathlib.Data.List.Pairwise
import Motis.Lib.InsertionMap
import Motis.Module.FixJson

/-! Normalisation keeps the content of regular documents.

    The keys of a written object are those of its visits, each after the key of its type:

        visits   u        k   v          u_type and k_type are there, v has no type
        keys     u_type u k_type k v -/

namespace Motis.Module

open Headed

/-! ### Keys -/

section Keys

theorem typeKeyOf_toList (key : String) :
    (typeKeyOf key).toList = key.toList ++ kTypeKey.toList := by
  rw [typeKeyOf, String.toList_append]

theorem length_kTypeKey : kTypeKey.toList.length = 5 := by decide

theorem typeKeyOf_injective {k k' : String} (h : typeKeyOf k = typeKeyOf k') : k = k' := by
  have hlist := congrArg String.toList h
  rw [typeKeyOf_toList, typeKeyOf_toList] at hlist
  exact String.toList_inj.mp (List.append_cancel_right hlist)

theorem typeKeyOf_ne_self (k : String) : typeKeyOf k ≠ k := by
  intro h
  have hlength := congrArg (fun s => s.toList.length) h
  simp only [typeKeyOf_toList, List.length_append, length_kTypeKey] at hlength
  omega

theorem five_le_typeKeyOf (k : String) : 5 ≤ (typeKeyOf k).toList.length := by
  rw [typeKeyOf_toList, List.length_append, length_kTypeKey]
  omega

theorem typeKeyOf_ne_empty (k : String) : typeKeyOf k ≠ "" := by
  intro h
  have hlength := five_le_typeKeyOf k
  rw [h] at hlength
  exact absurd hlength (by decide)

theorem typeKeyOf_eq_kTypeKey {k : String} : typeKeyOf k = kTypeKey ↔ k = "" := by
  constructor
  · intro h
    have hempty : typeKeyOf "" = kTypeKey := by decide
    exact typeKeyOf_injective (h.trans hempty.symm)
  · rintro rfl
    decide

theorem unionKey_eq_some {key k : String} :
    unionKey key = some k ↔ key = typeKeyOf k ∧ k ≠ "" := by
  rw [unionKey]
  constructor
  · intro h
    split at h
    · rename_i hsuffix
      cases h
      refine ⟨?_, fun hempty => ?_⟩
      · rw [← String.toList_inj, typeKeyOf_toList, String.toList_ofList, ← hsuffix.2,
          List.take_append_drop]
      · have hlength := congrArg (fun s => s.toList.length) hempty
        simp only [String.toList_ofList, List.length_take] at hlength
        have hzero : "".toList.length = 0 := by decide
        omega
    · cases h
  · rintro ⟨rfl, hk⟩
    have hpos : 0 < k.toList.length := by
      rw [List.length_pos_iff]
      exact fun hnil => hk (String.toList_inj.mp hnil)
    have hlength : (k.toList ++ kTypeKey.toList).length - 5 = k.toList.length := by
      rw [List.length_append, length_kTypeKey]
      omega
    simp only [typeKeyOf_toList, hlength, List.drop_left, List.take_left, String.ofList_toList]
    rw [if_pos ⟨by rw [List.length_append, length_kTypeKey]; omega, trivial⟩]

variable {keys : List String}

theorem mem_unions {k : String} :
    k ∈ unions keys ↔ k ∈ keys ∧ typeKeyOf k ∈ keys ∧ k ≠ "" := by
  simp only [unions, List.mem_filterMap, Option.filter_eq_some_iff, unionKey_eq_some,
    decide_eq_true_eq]
  constructor
  · rintro ⟨key, hkey, ⟨rfl, hk⟩, hmem⟩
    exact ⟨hmem, hkey, hk⟩
  · rintro ⟨hmem, hkey, hk⟩
    exact ⟨typeKeyOf k, hkey, ⟨rfl, hk⟩, hmem⟩

theorem nodup_unions (h : keys.Nodup) : (unions keys).Nodup := by
  refine h.filterMap fun key key' k hk hk' => ?_
  rw [Option.mem_def, Option.filter_eq_some_iff, unionKey_eq_some] at hk hk'
  rw [hk.1.1, hk'.1.1]

theorem mem_writtenKeys {k : String} :
    k ∈ writtenKeys keys ↔ ∃ u ∈ unions keys, k = typeKeyOf u ∨ k = u := by
  simp [writtenKeys, List.mem_flatMap]

/-- What the second loop visits. -/
def rest (keys : List String) : List String :=
  keys.filter fun key => key ≠ kTypeKey ∧ key ∉ writtenKeys keys

theorem mem_rest {k : String} :
    k ∈ rest keys ↔ k ∈ keys ∧ k ≠ kTypeKey ∧ k ∉ writtenKeys keys := by
  simp [rest, List.mem_filter]

/-- A union and its type are not visited by the second loop. -/
theorem not_rest_of_union {k : String} (hk : k ∈ unions keys) :
    k ∉ rest keys ∧ typeKeyOf k ∉ rest keys := by
  refine ⟨fun h => ?_, fun h => ?_⟩
  · exact (mem_rest.mp h).2.2 (mem_writtenKeys.mpr ⟨k, hk, .inr rfl⟩)
  · exact (mem_rest.mp h).2.2 (mem_writtenKeys.mpr ⟨k, hk, .inl rfl⟩)

theorem visits_eq : visits keys = unions keys ++ rest keys := rfl

theorem mem_keys_of_visits {k : String} (h : k ∈ visits keys) : k ∈ keys := by
  rcases List.mem_append.mp h with h | h
  · exact (mem_unions.mp h).1
  · exact (mem_rest.mp h).1

theorem nodup_visits (h : keys.Nodup) : (visits keys).Nodup := by
  rw [visits_eq, List.nodup_append']
  exact ⟨nodup_unions h, h.filter _, fun k hu hr => (not_rest_of_union hu).1 hr⟩

theorem mem_visits_of_key {k : String} (hk : k ∈ keys) (hne : k ≠ kTypeKey) :
    k ∈ visits keys ∨ ∃ u ∈ unions keys, k = typeKeyOf u := by
  by_cases hwritten : k ∈ writtenKeys keys
  · obtain ⟨u, hu, rfl | rfl⟩ := mem_writtenKeys.mp hwritten
    · exact .inr ⟨u, hu, rfl⟩
    · exact .inl (List.mem_append_left _ hu)
  · exact .inl (List.mem_append_right _ (mem_rest.mpr ⟨hk, hne, hwritten⟩))

/-- The type of a union is visited only as a union. -/
theorem mem_unions_of_visits {u : String} (hu : u ∈ unions keys)
    (h : typeKeyOf u ∈ visits keys) : typeKeyOf u ∈ unions keys :=
  (List.mem_append.mp h).resolve_right (not_rest_of_union hu).2

end Keys

/-! ### Written keys -/

section Written

variable (keys : List String) (typed : String → Bool)

def memberKeys (key : String) : List String :=
  (if typed key then [typeKeyOf key] else []) ++ [key]

/-- The keys that are written for the members when no key is empty. -/
def keysOf : List String :=
  ((unions keys).flatMap fun key => typeKeyOf key :: memberKeys typed key) ++
    (rest keys).flatMap (memberKeys typed)

/-- The keys that an object with the members should have. -/
def OutKey (key : String) : Prop :=
  key ≠ kTypeKey ∧ key ∈ keys ∨ ∃ k, typed k ∧ key = typeKeyOf k

/-- What is said about the keys of a written object. -/
structure KeysKept (added written : List String) : Prop where
  nodup : written.Nodup
  mem_iff : ∀ key, key ∈ written ↔ OutKey keys typed key ∨ key ∈ added
  direct : ∀ key ∈ written, typeKeyOf key ∈ written → Directly (typeKeyOf key) key written

/-- At most one member is added, with a new key. -/
structure Added (added : List String) : Prop where
  length : added.length ≤ 1
  plain : ∀ a ∈ added, a ∉ keys ∧ a ≠ "" ∧ ∀ k, a ≠ typeKeyOf k

/-- The types of added members come last. -/
def TypesLast (added : List String) : Prop :=
  ∀ a ∈ added, typeKeyOf a ∈ keys → ∃ before, visits keys = before ++ [typeKeyOf a]

/-- Members that have their type directly before them. -/
def IsHeaded (key : String) : Prop := typed key ∨ key ∈ unions keys

instance : DecidablePred (IsHeaded keys typed) := fun key =>
  inferInstanceAs (Decidable (typed key ∨ key ∈ unions keys))

variable {keys typed}

theorem mem_memberKeys {key x : String} :
    x ∈ memberKeys typed key ↔ x = key ∨ typed key ∧ x = typeKeyOf key := by
  rw [memberKeys]
  cases typed key <;> simp [or_comm]

theorem mem_keysOf {x : String} : x ∈ keysOf keys typed ↔
    x ∈ visits keys ∨ (∃ u ∈ unions keys, x = typeKeyOf u) ∨
      ∃ k ∈ visits keys, typed k ∧ x = typeKeyOf k := by
  simp only [keysOf, visits_eq, List.mem_append, List.mem_flatMap, List.mem_cons, mem_memberKeys]
  constructor
  · rintro (⟨u, hu, rfl | rfl | ⟨ht, rfl⟩⟩ | ⟨k, hk, rfl | ⟨ht, rfl⟩⟩)
    · exact .inr (.inl ⟨u, hu, rfl⟩)
    · exact .inl (.inl hu)
    · exact .inr (.inl ⟨u, hu, rfl⟩)
    · exact .inl (.inr hk)
    · exact .inr (.inr ⟨k, .inr hk, ht, rfl⟩)
  · rintro ((hu | hk) | ⟨u, hu, rfl⟩ | ⟨k, hu | hk, ht, rfl⟩)
    · exact .inl ⟨x, hu, .inr (.inl rfl)⟩
    · exact .inr ⟨x, hk, .inl rfl⟩
    · exact .inl ⟨u, hu, .inl rfl⟩
    · exact .inl ⟨k, hu, .inl rfl⟩
    · exact .inr ⟨k, hk, .inr ⟨ht, rfl⟩⟩

/-- When no union has two types, each visited member has at most one header. -/
theorem keysOf_eq_headed (h : ∀ key, typed key → typeKeyOf key ∉ keys) :
    keysOf keys typed = headed typeKeyOf (IsHeaded keys typed) (visits keys) := by
  rw [visits_eq, headed_append, keysOf]
  congr 1
  · refine List.flatMap_congr fun u hu => ?_
    have huntyped : ¬typed u = true := fun ht => h u ht (mem_unions.mp hu).2.1
    have hheaded : IsHeaded keys typed u := .inr hu
    simp [memberKeys, huntyped, hheaded]
  · refine List.flatMap_congr fun k hk => ?_
    have hunion : k ∉ unions keys := fun hu => (not_rest_of_union hu).1 hk
    have hheaded : IsHeaded keys typed k ↔ typed k = true :=
      ⟨fun hhead => hhead.resolve_right hunion, .inl⟩
    simp only [memberKeys, hheaded]
    split <;> rfl

section

variable {added : List String}

/-- Members that are added have no header. -/
theorem headed_added (htyped : ∀ key, typed key → key ∈ keys)
    (hadded : Added keys added) :
    headed typeKeyOf (IsHeaded keys typed) added = added := by
  have hplain : ∀ a ∈ added, ¬IsHeaded keys typed a := by
    rintro a ha (ht | hu)
    · exact (hadded.plain a ha).1 (htyped a ht)
    · exact (hadded.plain a ha).1 (mem_unions.mp hu).1
  rw [headed]
  conv_rhs => rw [← List.flatMap_singleton' added]
  exact List.flatMap_congr fun a ha => if_neg (hplain a ha)

/-- The members and what is added, each after its header. -/
theorem written_eq_headed (htyped : ∀ key, typed key → key ∈ keys)
    (hadded : Added keys added)
    (hinner : ∀ key, typed key → typeKeyOf key ∉ keys) :
    keysOf keys typed ++ added =
      headed typeKeyOf (IsHeaded keys typed) (visits keys ++ added) := by
  rw [headed_append, keysOf_eq_headed hinner, headed_added htyped hadded]

theorem nodup_visits_added (hnodup : keys.Nodup) (hadded : Added keys added) :
    (visits keys ++ added).Nodup := by
  have hnodup' : added.Nodup := by
    match added, hadded.length with
    | [], _ => exact List.nodup_nil
    | [a], _ => exact List.nodup_singleton a
  rw [List.nodup_append']
  exact ⟨nodup_visits hnodup, hnodup', fun a ha ha' => (hadded.plain a ha').1 (mem_keys_of_visits ha)⟩

section Forward

variable (h : KeysKept keys typed added (keysOf keys typed ++ added))

include h

theorem KeysKept.nodup_keysOf : (keysOf keys typed).Nodup :=
  (List.nodup_append'.mp h.nodup).1

theorem KeysKept.inner_only (hempty : "" ∉ keys) (htyped : ∀ key, typed key → key ∈ keys)
    {key : String} (ht : typed key) : typeKeyOf key ∉ keys := by
  intro hkey
  have hne : key ≠ "" := fun heq => hempty (heq ▸ htyped key ht)
  have hu : key ∈ unions keys := mem_unions.mpr ⟨htyped key ht, hkey, hne⟩
  -- the group of the union has its type twice
  have hgroups := (List.nodup_append'.mp h.nodup_keysOf).1
  have hgroup := (List.nodup_flatMap.mp hgroups).1 key hu
  exact (List.nodup_cons.mp hgroup).1 (mem_memberKeys.mpr (.inr ⟨ht, rfl⟩))

theorem KeysKept.single (hempty : "" ∉ keys) {key : String}
    (hkey : key ∈ keys) (htype : typeKeyOf key ∈ keys) : typeKeyOf (typeKeyOf key) ∉ keys := by
  intro htype'
  have hne : key ≠ "" := fun heq => hempty (heq ▸ hkey)
  have hu : key ∈ unions keys := mem_unions.mpr ⟨hkey, htype, hne⟩
  have hu' : typeKeyOf key ∈ unions keys :=
    mem_unions.mpr ⟨htype, htype', typeKeyOf_ne_empty key⟩
  have hgroups := (List.nodup_append'.mp h.nodup_keysOf).1
  have hpairwise := (List.nodup_flatMap.mp hgroups).2
  have hsymm : Std.Symm (Function.onFun List.Disjoint fun key =>
      typeKeyOf key :: memberKeys typed key) := ⟨fun _ _ hd => List.disjoint_symm hd⟩
  have hdisjoint := hpairwise.forall hu hu' (typeKeyOf_ne_self key).symm
  exact hdisjoint (List.mem_cons_self ..)
    (List.mem_cons_of_mem _ (mem_memberKeys.mpr (.inl rfl)))

theorem KeysKept.type_untyped (hempty : "" ∉ keys) (htyped : ∀ key, typed key → key ∈ keys)
    (hadded : Added keys added) (hkey : kTypeKey ∈ keys) :
    typeKeyOf kTypeKey ∉ keys := by
  intro htype
  have hu : kTypeKey ∈ unions keys := mem_unions.mpr ⟨hkey, htype, by decide⟩
  have hmem : kTypeKey ∈ keysOf keys typed ++ added :=
    List.mem_append_left _ (mem_keysOf.mpr (.inl (List.mem_append_left _ hu)))
  rcases (h.mem_iff kTypeKey).mp hmem with (⟨hne, -⟩ | ⟨k, ht, heq⟩) | ha
  · exact hne rfl
  · exact hempty (typeKeyOf_eq_kTypeKey.mp heq.symm ▸ htyped k ht)
  · exact (hadded.plain _ ha).1 hkey

/-- The inner type of a visited member is written with it only. -/
theorem KeysKept.visited (hempty : "" ∉ keys) (htyped : ∀ key, typed key → key ∈ keys)
    (hadded : Added keys added) {key : String} (ht : typed key) :
    key ∈ rest keys := by
  have houter := h.inner_only hempty htyped ht
  have hmem := (h.mem_iff (typeKeyOf key)).mpr (.inl (.inr ⟨key, ht, rfl⟩))
  have hvisits : key ∈ visits keys := by
    rcases List.mem_append.mp hmem with hmem | ha
    · rcases mem_keysOf.mp hmem with hk | ⟨u, hu, heq⟩ | ⟨k, hk, -, heq⟩
      · exact absurd (mem_keys_of_visits hk) houter
      · exact absurd (typeKeyOf_injective heq ▸ (mem_unions.mp hu).2.1) houter
      · exact typeKeyOf_injective heq ▸ hk
    · exact absurd rfl ((hadded.plain _ ha).2.2 key)
  refine (List.mem_append.mp hvisits).resolve_left fun hu => ?_
  exact houter (mem_unions.mp hu).2.1

theorem KeysKept.not_type (hempty : "" ∉ keys) (htyped : ∀ key, typed key → key ∈ keys)
    (hadded : Added keys added) {key : String} (ht : typed key) :
    key ≠ kTypeKey ∧ ∀ k ∈ keys, key ≠ typeKeyOf k := by
  have hrest := mem_rest.mp (h.visited hempty htyped hadded ht)
  refine ⟨hrest.2.1, ?_⟩
  rintro k hk rfl
  have hne : k ≠ "" := fun heq => hempty (heq ▸ hk)
  have hu : k ∈ unions keys := mem_unions.mpr ⟨hk, hrest.1, hne⟩
  exact hrest.2.2 (mem_writtenKeys.mpr ⟨k, hu, .inl rfl⟩)

theorem KeysKept.direct_type (hnodup : keys.Nodup) (hempty : "" ∉ keys)
    (htyped : ∀ key, typed key → key ∈ keys)
    (hadded : Added keys added) {key : String} (ht : typed key)
    (htype : typeKeyOf (typeKeyOf key) ∈ keys) :
    Directly (typeKeyOf (typeKeyOf key)) key (visits keys) := by
  have hvisits : key ∈ visits keys :=
    List.mem_append_right _ (h.visited hempty htyped hadded ht)
  have houter : typeKeyOf (typeKeyOf key) ≠ kTypeKey := fun heq =>
    typeKeyOf_ne_empty key (typeKeyOf_eq_kTypeKey.mp heq)
  have hkey := (h.mem_iff (typeKeyOf key)).mpr (.inl (.inr ⟨key, ht, rfl⟩))
  have houterKey := (h.mem_iff _).mpr (.inl (.inl ⟨houter, htype⟩))
  have hdirect := h.direct _ hkey houterKey
  have hfirst : first typeKeyOf (IsHeaded keys typed) key = typeKeyOf key := if_pos (.inl ht)
  have hnodup' := nodup_visits_added hnodup hadded
  have hwritten := h.nodup
  rw [written_eq_headed htyped hadded fun k => h.inner_only hempty htyped] at hdirect hwritten
  rw [← hfirst] at hdirect
  have hkeys := directly_of_headed hwritten (List.mem_append_left added hvisits) hdirect
  rw [hfirst] at hkeys
  exact hkeys.of_append hnodup' hvisits

theorem KeysKept.membersOk (hnodup : keys.Nodup) (hempty : "" ∉ keys)
    (htyped : ∀ key, typed key → key ∈ keys)
    (hadded : Added keys added) :
    MembersOk keys typed where
  nonempty := hempty
  type_untyped := h.type_untyped hempty htyped hadded
  single := fun _ hkey htype => h.single hempty hkey htype
  inner_only := fun _ ht => h.inner_only hempty htyped ht
  not_type := fun _ ht => h.not_type hempty htyped hadded ht
  direct := fun _ ht htype => h.direct_type hnodup hempty htyped hadded ht htype

theorem KeysKept.typesLast (hnodup : keys.Nodup) (hempty : "" ∉ keys)
    (htyped : ∀ key, typed key → key ∈ keys) (hadded : Added keys added) :
    TypesLast keys added := by
  intro a ha htype
  have hplain := hadded.plain a ha
  have hsingleton : added = [a] := by
    match added, hadded.length, ha with
    | [_], _, ha => rw [List.mem_singleton.mp ha]
  have houter : typeKeyOf a ≠ kTypeKey := fun heq => hplain.2.1 (typeKeyOf_eq_kTypeKey.mp heq)
  have htypeKey := (h.mem_iff _).mpr (.inl (.inl ⟨houter, htype⟩))
  have hdirect := h.direct a (List.mem_append_right _ ha) htypeKey
  have hfirst : first typeKeyOf (IsHeaded keys typed) a = a := by
    refine if_neg ?_
    rintro (ht | hu)
    · exact hplain.1 (htyped a ht)
    · exact hplain.1 (mem_unions.mp hu).1
  have hwritten := h.nodup
  rw [written_eq_headed htyped hadded fun k => h.inner_only hempty htyped] at hdirect hwritten
  have hkeys : Directly (typeKeyOf a) a (visits keys ++ added) := by
    refine directly_of_headed hwritten (List.mem_append_right _ ha) ?_
    rwa [hfirst]
  have hnodup' := nodup_visits_added hnodup hadded
  rw [hsingleton] at hkeys hnodup'
  exact hkeys.front hnodup'

end Forward

section Backward

theorem MembersOk.visited (hok : MembersOk keys typed) (htyped : ∀ key, typed key → key ∈ keys)
    {key : String} (ht : typed key) : key ∈ visits keys := by
  rcases mem_visits_of_key (htyped key ht) (hok.not_type key ht).1 with hk | ⟨u, hu, heq⟩
  · exact hk
  · exact absurd heq ((hok.not_type key ht).2 u (mem_unions.mp hu).1)

/-- The header of a visited member is not visited itself. -/
theorem MembersOk.header_new (hok : MembersOk keys typed) {key : String}
    (hhead : IsHeaded keys typed key) : typeKeyOf key ∉ visits keys := by
  intro hvisits
  rcases hhead with ht | hu
  · exact hok.inner_only key ht (mem_keys_of_visits hvisits)
  · have hunion := mem_unions.mp hu
    have houter := mem_unions.mp (mem_unions_of_visits hu hvisits)
    exact hok.single key hunion.1 hunion.2.1 houter.2.1

theorem MembersOk.nodup_headed (hok : MembersOk keys typed) (hnodup : keys.Nodup)
    (hadded : Added keys added) :
    (headed typeKeyOf (IsHeaded keys typed) (visits keys ++ added)).Nodup := by
  refine Headed.nodup_headed (fun _ _ => typeKeyOf_injective)
    (nodup_visits_added hnodup hadded) fun key _ hhead hmem => ?_
  rcases List.mem_append.mp hmem with hmem | ha
  · exact hok.header_new hhead hmem
  · exact (hadded.plain _ ha).2.2 key rfl

theorem MembersOk.mem_written (hok : MembersOk keys typed)
    (htyped : ∀ key, typed key → key ∈ keys) (key : String) :
    key ∈ keysOf keys typed ++ added ↔ OutKey keys typed key ∨ key ∈ added := by
  rw [List.mem_append, mem_keysOf]
  refine or_congr_left ⟨?_, ?_⟩
  · rintro (hk | ⟨u, hu, rfl⟩ | ⟨k, hk, ht, rfl⟩)
    · refine .inl ⟨?_, mem_keys_of_visits hk⟩
      rintro rfl
      rcases List.mem_append.mp hk with hu | hr
      · exact hok.type_untyped (mem_unions.mp hu).1 (mem_unions.mp hu).2.1
      · exact (mem_rest.mp hr).2.1 rfl
    · have hunion := mem_unions.mp hu
      exact .inl ⟨fun heq => hunion.2.2 (typeKeyOf_eq_kTypeKey.mp heq), hunion.2.1⟩
    · exact .inr ⟨k, ht, rfl⟩
  · rintro (⟨hne, hk⟩ | ⟨k, ht, rfl⟩)
    · rcases mem_visits_of_key hk hne with hk | ⟨u, hu, rfl⟩
      · exact .inl hk
      · exact .inr (.inl ⟨u, hu, rfl⟩)
    · exact .inr (.inr ⟨k, hok.visited htyped ht, ht, rfl⟩)

/-- The type of a header is the header of no member, it is visited itself. -/
theorem MembersOk.visits_of_type (hok : MembersOk keys typed) (hadded : Added keys added)
    {key : String}
    (hhead : IsHeaded keys typed key)
    (hmem : typeKeyOf (typeKeyOf key) ∈
      headed typeKeyOf (IsHeaded keys typed) (visits keys ++ added)) :
    typeKeyOf (typeKeyOf key) ∈ visits keys := by
  rcases mem_headed.mp hmem with hmem | ⟨k, hk, hhead', heq⟩
  · refine (List.mem_append.mp hmem).resolve_right fun ha => ?_
    exact (hadded.plain _ ha).2.2 _ rfl
  · obtain rfl := typeKeyOf_injective heq
    rcases List.mem_append.mp hk with hk | ha
    · exact absurd hk (hok.header_new hhead)
    · exact absurd rfl ((hadded.plain _ ha).2.2 key)

theorem MembersOk.direct_headed (hok : MembersOk keys typed) (hadded : Added keys added)
    (hlast : TypesLast keys added) {key : String}
    (hkey : key ∈ headed typeKeyOf (IsHeaded keys typed) (visits keys ++ added))
    (htype : typeKeyOf key ∈ headed typeKeyOf (IsHeaded keys typed) (visits keys ++ added)) :
    Directly (typeKeyOf key) key
      (headed typeKeyOf (IsHeaded keys typed) (visits keys ++ added)) := by
  rcases mem_headed.mp hkey with hk | ⟨k, hk, hhead, rfl⟩
  · by_cases hhead : IsHeaded keys typed key
    · exact directly_header hk hhead
    · have htypeKey : typeKeyOf key ∈ keys := by
        rcases mem_headed.mp htype with hmem | ⟨k, -, hhead', heq⟩
        · refine mem_keys_of_visits ((List.mem_append.mp hmem).resolve_right fun ha => ?_)
          exact (hadded.plain _ ha).2.2 _ rfl
        · exact absurd (typeKeyOf_injective heq ▸ hhead') hhead
      -- a member with a type next to it has a header, so this is the added one
      rcases List.mem_append.mp hk with hk | ha
      · have hmem := mem_keys_of_visits hk
        have hne : key ≠ "" := fun heq => hok.nonempty (heq ▸ hmem)
        exact absurd (.inr (mem_unions.mpr ⟨hmem, htypeKey, hne⟩)) hhead
      · obtain ⟨before, hbefore⟩ := hlast key ha htypeKey
        have hsingleton : added = [key] := by
          match added, hadded.length, ha with
          | [_], _, ha => rw [List.mem_singleton.mp ha]
        have hdirect : Directly (typeKeyOf key) key (visits keys ++ added) :=
          ⟨before, [], by simp [hbefore, hsingleton]⟩
        have hfirst : first typeKeyOf (IsHeaded keys typed) key = key := if_neg hhead
        have hheaded := hdirect.headed typeKeyOf (IsHeaded keys typed)
        rwa [hfirst] at hheaded
  · have hvisits := hok.visits_of_type hadded hhead htype
    have hkeys := mem_keys_of_visits hvisits
    have hfirst : first typeKeyOf (IsHeaded keys typed) k = typeKeyOf k := if_pos hhead
    rcases hhead with ht | hu
    · have hdirect := (hok.direct k ht hkeys).append added
      have hheaded := hdirect.headed typeKeyOf (IsHeaded keys typed)
      rwa [hfirst] at hheaded
    · have hunion := mem_unions.mp hu
      exact absurd hkeys (hok.single k hunion.1 hunion.2.1)

theorem MembersOk.kept (hok : MembersOk keys typed) (hnodup : keys.Nodup)
    (htyped : ∀ key, typed key → key ∈ keys) (hadded : Added keys added)
    (hlast : TypesLast keys added) :
    KeysKept keys typed added (keysOf keys typed ++ added) := by
  have hheaded := written_eq_headed htyped hadded hok.inner_only
  refine ⟨?_, hok.mem_written htyped, ?_⟩
  · rw [hheaded]
    exact hok.nodup_headed hnodup hadded
  · rw [hheaded]
    exact fun key hkey htype => hok.direct_headed hadded hlast hkey htype

end Backward

/-- The keys that are written are right exactly when the members are. -/
theorem keysKept_iff (hnodup : keys.Nodup) (hempty : "" ∉ keys)
    (htyped : ∀ key, typed key → key ∈ keys) (hadded : Added keys added) :
    KeysKept keys typed added (keysOf keys typed ++ added) ↔
      MembersOk keys typed ∧ TypesLast keys added := by
  constructor
  · intro h
    exact ⟨h.membersOk hnodup hempty htyped hadded, h.typesLast hnodup hempty htyped hadded⟩
  · rintro ⟨hok, hlast⟩
    exact hok.kept hnodup htyped hadded hlast

end

end Written

/-! ### Written members -/

section Members

/-- A union after its type. -/
def unionItems (c : String → Converted) (key : String) : List Item :=
  (some (typeKeyOf key), (c (typeKeyOf key)).value) :: writeMember key (c key)

variable (c : String → Converted) (keys : List String)

/-- What the first loop writes after a type. -/
def unionOf (key : String) : Option String := (unionKey key).filter (· ∈ keys)

theorem lookup_members (key : String) :
    (keys.map fun k => (k, c k)).lookup key = if key ∈ keys then some (c key) else none := by
  split
  · rename_i hkey
    exact List.lookup_graph c hkey
  · rename_i hkey
    rw [List.lookup_eq_none_iff]
    rintro p hp
    obtain ⟨k, hk, rfl⟩ := List.mem_map.mp hp
    have hne : key ≠ k := fun heq => hkey (heq.symm ▸ hk)
    exact bne_iff_ne.mpr hne

theorem bind_unionKey (key : String) :
    ((unionKey key).bind fun k => ((keys.map fun k => (k, c k)).lookup k).map (k, ·)) =
      (unionOf keys key).map fun k => (k, c k) := by
  rw [unionOf]
  cases unionKey key with
  | none => rfl
  | some k =>
    rw [Option.bind_some, lookup_members]
    by_cases hk : k ∈ keys <;> simp [Option.filter, hk]

/-- A loop that writes a union after its type, and nothing after another key. -/
theorem foldl_unions {step : List Item × List String → String × Converted → List Item × List String}
    (hnone : ∀ items written key, unionOf keys key = none →
      step (items, written) (key, c key) = (items, written))
    (hsome : ∀ items written key k, unionOf keys key = some k →
      step (items, written) (key, c key) =
        (items ++ (some key, (c key).value) :: writeMember k (c k), written ++ [key, k]))
    (l : List String) (items : List Item) (written : List String) :
    (l.map fun k => (k, c k)).foldl step (items, written) =
      (items ++ (l.filterMap (unionOf keys)).flatMap (unionItems c),
        written ++ (l.filterMap (unionOf keys)).flatMap fun k => [typeKeyOf k, k]) := by
  induction l generalizing items written with
  | nil => simp
  | cons key l ih =>
    rw [List.map_cons, List.foldl_cons]
    cases hunion : unionOf keys key with
    | none => simp only [hnone items written key hunion, List.filterMap_cons, hunion, ih]
    | some k =>
      rw [hsome items written key k hunion]
      obtain ⟨rfl, -⟩ := unionKey_eq_some.mp (Option.filter_eq_some_iff.mp hunion).1
      simp only [List.filterMap_cons, hunion, ih, List.flatMap_cons, unionItems, List.append_assoc]

theorem writeUnions_eq : writeUnions (keys.map fun k => (k, c k)) =
    ((unions keys).flatMap (unionItems c), writtenKeys keys) := by
  rw [writeUnions]
  refine (foldl_unions c keys ?_ ?_ keys [] []).trans ?_
  · intro items written key hunion
    simp only [bind_unionKey, hunion, Option.map_none]
  · intro items written key k hunion
    simp only [bind_unionKey, hunion, Option.map_some]
  · rw [List.nil_append, List.nil_append]
    rfl

theorem writeMembers_eq : writeMembers (keys.map fun k => (k, c k)) =
    (unions keys).flatMap (unionItems c) ++ (rest keys).flatMap fun k => writeMember k (c k) := by
  have hfold : ∀ (l : List String) (items : List Item),
      (l.map fun k => (k, c k)).foldl (fun items m =>
        if m.1 ≠ kTypeKey ∧ m.1 ∉ writtenKeys keys then items ++ writeMember m.1 m.2
        else items) items =
      items ++ (l.filter fun k => k ≠ kTypeKey ∧ k ∉ writtenKeys keys).flatMap
        fun k => writeMember k (c k) := by
    intro l
    induction l with
    | nil => simp
    | cons key l ih =>
      intro items
      rw [List.map_cons, List.foldl_cons, ih, List.filter_cons]
      simp only [decide_eq_true_eq]
      split <;> simp
  rw [writeMembers, writeUnions_eq]
  exact hfold keys _

variable {c keys}

theorem map_fst_writeMember {key : String} (hkey : key ≠ "") (x : Converted) :
    (writeMember key x).map Prod.fst =
      ((if x.type.isSome then [typeKeyOf key] else []) ++ [key]).map some := by
  rw [writeMember, if_neg hkey]
  cases x.type <;> simp

theorem map_fst_writeMembers (hempty : "" ∉ keys) :
    (writeMembers (keys.map fun k => (k, c k))).map Prod.fst =
      (keysOf keys fun k => (c k).type.isSome).map some := by
  have hmember : ∀ k ∈ keys, (writeMember k (c k)).map Prod.fst =
      (memberKeys (fun k => (c k).type.isSome) k).map some := by
    intro k hk
    exact map_fst_writeMember (fun heq => hempty (heq ▸ hk)) (c k)
  rw [writeMembers_eq, keysOf, List.map_append, List.map_append]
  simp only [List.map_flatMap]
  congr 1
  · refine List.flatMap_congr fun u hu => ?_
    rw [unionItems, List.map_cons, List.map_cons, hmember u (mem_unions.mp hu).1]
  · exact List.flatMap_congr fun k hk => hmember k (mem_rest.mp hk).1

/-- A member with an empty key is written without a name. -/
theorem none_mem_writeMembers (hempty : "" ∈ keys) :
    none ∈ (writeMembers (keys.map fun k => (k, c k))).map Prod.fst := by
  have hrest : "" ∈ rest keys := by
    refine mem_rest.mpr ⟨hempty, by decide, fun hwritten => ?_⟩
    obtain ⟨u, hu, heq | heq⟩ := mem_writtenKeys.mp hwritten
    · exact typeKeyOf_ne_empty u heq.symm
    · exact (mem_unions.mp hu).2.2 heq.symm
  have hitem : (none, (c "").value) ∈ writeMember "" (c "") := by
    rw [writeMember, if_pos rfl]
    exact List.mem_singleton.mpr rfl
  rw [writeMembers_eq]
  exact List.mem_map.mpr ⟨(none, (c "").value), List.mem_append_right _
    (List.mem_flatMap.mpr ⟨"", hrest, hitem⟩), rfl⟩

theorem mem_writeMember {key : String} (hkey : key ≠ "") (x : Converted) :
    (some key, x.value) ∈ writeMember key x := by
  rw [writeMember, if_neg hkey]
  exact List.mem_append_right _ (List.mem_singleton.mpr rfl)

theorem mem_writeMember_type {key : String} (hkey : key ≠ "") {x : Converted} {w : Written}
    (hw : x.type = some w) : (some (typeKeyOf key), w) ∈ writeMember key x := by
  rw [writeMember, if_neg hkey, hw]
  exact List.mem_append_left _ (by simp)

theorem mem_writeMembers_of_visits {key : String} (hk : key ∈ visits keys)
    {item : Item} (hitem : item ∈ writeMember key (c key)) :
    item ∈ writeMembers (keys.map fun k => (k, c k)) := by
  rw [writeMembers_eq]
  rcases List.mem_append.mp hk with hu | hr
  · exact List.mem_append_left _
      (List.mem_flatMap.mpr ⟨key, hu, List.mem_cons_of_mem _ hitem⟩)
  · exact List.mem_append_right _ (List.mem_flatMap.mpr ⟨key, hr, hitem⟩)

/-- Each member other than `_type` is written with its value. -/
theorem mem_writeMembers {key : String} (hempty : "" ∉ keys) (hk : key ∈ keys)
    (hne : key ≠ kTypeKey) :
    (some key, (c key).value) ∈ writeMembers (keys.map fun k => (k, c k)) := by
  rcases mem_visits_of_key hk hne with hvisits | ⟨u, hu, rfl⟩
  · have hkey : key ≠ "" := fun heq => hempty (heq ▸ hk)
    exact mem_writeMembers_of_visits hvisits (mem_writeMember hkey _)
  · rw [writeMembers_eq]
    exact List.mem_append_left _ (List.mem_flatMap.mpr ⟨u, hu, List.mem_cons_self ..⟩)

theorem mem_itemsOf {value : String → Written} {key : String} {w : Written} :
    (some key, w) ∈ itemsOf keys value ↔ key ∈ keys ∧ value key = w := by
  simp [itemsOf]

theorem map_fst_itemsOf (value : String → Written) :
    (itemsOf keys value).map Prod.fst = keys.map some := by
  simp [itemsOf]

theorem exists_itemsOf {items : List Item} (hkeys : keys.Nodup)
    (h : items.map Prod.fst = keys.map some) : ∃ value, items = itemsOf keys value := by
  induction keys generalizing items with
  | nil => exact ⟨fun _ => .scalar .null, by simpa [itemsOf] using h⟩
  | cons key keys ih =>
    obtain ⟨hnew, hkeys⟩ := List.nodup_cons.mp hkeys
    match items, h with
    | (_, w) :: items, h =>
      obtain ⟨rfl, htail⟩ := List.cons_eq_cons.mp h
      obtain ⟨value, rfl⟩ := ih hkeys htail
      refine ⟨Function.update value key w, ?_⟩
      have hkeep : ∀ k ∈ keys, Function.update value key w k = value k := fun k hk =>
        Function.update_of_ne (ne_of_mem_of_not_mem hk hnew) w value
      simp only [itemsOf, List.map_cons, Function.update_self, List.cons.injEq, true_and]
      exact List.map_congr_left fun k hk => by rw [hkeep k hk]

end Members

/-! ### Written values -/

section Values

variable {ms : List (String × Json)}

theorem convertMembers_eq_map : ∀ ms : List (String × Json),
    convertMembers ms = ms.map fun m => (m.1, convert m.2)
  | [] => rfl
  | (key, v) :: ms => by rw [convertMembers, convertMembers_eq_map ms, List.map_cons]

theorem convertElements_eq_map : ∀ es : List Json,
    convertElements es = es.map fun e => (convert e).value
  | [] => rfl
  | e :: es => by rw [convertElements, convertElements_eq_map es, List.map_cons]

/-- What is converted for a key. -/
def convertedOf (ms : List (String × Json)) (key : String) : Converted :=
  ((ms.lookup key).map convert).getD ⟨none, .scalar .null⟩

theorem convertedOf_eq (hnodup : (ms.map Prod.fst).Nodup) {key : String} {v : Json}
    (h : (key, v) ∈ ms) : convertedOf ms key = convert v := by
  rw [convertedOf, (InsertionMap.lookup_eq_some hnodup).mpr h]
  rfl

theorem convertMembers_eq (hnodup : (ms.map Prod.fst).Nodup) :
    convertMembers ms = (ms.map Prod.fst).map fun key => (key, convertedOf ms key) := by
  rw [convertMembers_eq_map, List.map_map]
  refine List.map_congr_left fun m hm => ?_
  have h : convertedOf ms m.1 = convert m.2 := convertedOf_eq hnodup hm
  simp only [Function.comp_apply, h]

theorem lookup_map_convert (key : String) : ∀ ms : List (String × Json),
    (ms.map fun m => (m.1, convert m.2)).lookup key = (ms.lookup key).map convert
  | [] => rfl
  | m :: ms => by
    rw [List.map_cons, List.lookup_cons, List.lookup_cons, lookup_map_convert key ms]
    split <;> rfl

theorem convert_type (v : Json) : (convert v).type = v.type?.map fun t => (convert t).value := by
  cases v with
  | scalar s => rfl
  | array es => rfl
  | object ms =>
    rw [convert, Json.type?, convertMembers_eq_map]
    simp only [lookup_map_convert, Option.map_map]
    rfl

theorem convertedOf_type (key : String) :
    (convertedOf ms key).type.isSome = isTyped ms key := by
  rw [convertedOf, isTyped]
  cases ms.lookup key with
  | none => rfl
  | some v =>
    rw [Option.map_some, Option.getD_some, convert_type, Option.isSome_map, Option.bind_some]

theorem isTyped_iff (hnodup : (ms.map Prod.fst).Nodup) {key : String} :
    isTyped ms key ↔ ∃ v, (key, v) ∈ ms ∧ v.type?.isSome := by
  simp only [isTyped, Option.isSome_bind, ← InsertionMap.lookup_eq_some hnodup]
  cases ms.lookup key <;> simp

theorem mem_of_isTyped (hnodup : (ms.map Prod.fst).Nodup) (key : String) (h : isTyped ms key) :
    key ∈ ms.map Prod.fst := by
  obtain ⟨v, hv, -⟩ := (isTyped_iff hnodup).mp h
  exact List.mem_map_of_mem hv

theorem hasKey_iff (hnodup : (ms.map Prod.fst).Nodup) {key : String} :
    HasKey ms key ↔ OutKey (ms.map Prod.fst) (isTyped ms) key := by
  refine or_congr_right ⟨?_, ?_⟩
  · rintro ⟨k, v, hv, ht, rfl⟩
    exact ⟨k, (isTyped_iff hnodup).mpr ⟨v, hv, ht⟩, rfl⟩
  · rintro ⟨k, ht, rfl⟩
    obtain ⟨v, hv, ht⟩ := (isTyped_iff hnodup).mp ht
    exact ⟨k, v, hv, ht, rfl⟩

variable {added : List String} {addedItems : List Item} {keys : List String}
  {value : String → Written}

theorem map_fst_written (hnodup : (ms.map Prod.fst).Nodup) (hempty : "" ∉ ms.map Prod.fst)
    (hitems : addedItems.map Prod.fst = added.map some) :
    (writeMembers (convertMembers ms) ++ addedItems).map Prod.fst =
      (keysOf (ms.map Prod.fst) (isTyped ms) ++ added).map some := by
  rw [convertMembers_eq hnodup, List.map_append, List.map_append, map_fst_writeMembers hempty,
    hitems]
  simp only [convertedOf_type]

/-- The value of a member other than `_type`. -/
theorem value_member (hnodup : (ms.map Prod.fst).Nodup) (hempty : "" ∉ ms.map Prod.fst)
    (h : writeMembers (convertMembers ms) ++ addedItems = itemsOf keys value) {key : String}
    {v : Json} (hv : (key, v) ∈ ms) (hne : key ≠ kTypeKey) : value key = (convert v).value := by
  have hmem := mem_writeMembers (c := convertedOf ms) hempty (List.mem_map_of_mem hv) hne
  rw [← convertMembers_eq hnodup, convertedOf_eq hnodup hv] at hmem
  exact (mem_itemsOf.mp (h ▸ List.mem_append_left addedItems hmem)).2

/-- The value of the type of a member. -/
theorem value_type (hnodup : (ms.map Prod.fst).Nodup)
    (hok : MembersOk (ms.map Prod.fst) (isTyped ms))
    (h : writeMembers (convertMembers ms) ++ addedItems = itemsOf keys value) {key : String}
    {v t : Json} (hv : (key, v) ∈ ms) (ht : v.type? = some t) :
    value (typeKeyOf key) = (convert t).value := by
  have htyped : isTyped ms key := (isTyped_iff hnodup).mpr ⟨v, hv, by simp [ht]⟩
  have hvisits := hok.visited (mem_of_isTyped hnodup) htyped
  have hkey : key ≠ "" := fun heq => hok.nonempty (heq ▸ List.mem_map_of_mem hv)
  have htype : (convertedOf ms key).type = some (convert t).value := by
    rw [convertedOf_eq hnodup hv, convert_type, ht, Option.map_some]
  have hmem := mem_writeMembers_of_visits (c := convertedOf ms) hvisits
    (mem_writeMember_type hkey htype)
  rw [← convertMembers_eq hnodup] at hmem
  exact (mem_itemsOf.mp (h ▸ List.mem_append_left addedItems hmem)).2

theorem keysKept_of_keeps {R : Json → Written → Prop} (hnodup : (ms.map Prod.fst).Nodup)
    (h : KeepsMembers R ms added keys value) :
    KeysKept (ms.map Prod.fst) (isTyped ms) added keys where
  nodup := h.nodup
  mem_iff := fun key => by rw [h.mem_iff, hasKey_iff hnodup]
  direct := h.direct

/-- The members of an object are kept exactly when they are right and their values are kept. -/
theorem keepsMembers_iff {R : Json → Written → Prop} (hnodup : (ms.map Prod.fst).Nodup)
    (hadded : Added (ms.map Prod.fst) added)
    (hitems : addedItems.map Prod.fst = added.map some) :
    (∃ keys value, writeMembers (convertMembers ms) ++ addedItems = itemsOf keys value ∧
      KeepsMembers R ms added keys value) ↔
      MembersOk (ms.map Prod.fst) (isTyped ms) ∧ TypesLast (ms.map Prod.fst) added ∧
      (∀ key v, (key, v) ∈ ms → key ≠ kTypeKey → R v (convert v).value) ∧
      ∀ key v t, (key, v) ∈ ms → v.type? = some t → R t (convert t).value := by
  constructor
  · rintro ⟨keys, value, hwritten, hkeeps⟩
    have hempty : "" ∉ ms.map Prod.fst := by
      intro hempty
      have hnone := none_mem_writeMembers (c := convertedOf ms) hempty
      rw [← convertMembers_eq hnodup] at hnone
      have hmem : none ∈ (writeMembers (convertMembers ms) ++ addedItems).map Prod.fst := by
        rw [List.map_append]
        exact List.mem_append_left _ hnone
      rw [hwritten, map_fst_itemsOf] at hmem
      simp at hmem
    have hfst := map_fst_written hnodup hempty hitems
    rw [hwritten, map_fst_itemsOf] at hfst
    have hkeys := List.map_injective_iff.mpr (fun _ _ heq => Option.some.inj heq) hfst
    have hkept := keysKept_of_keeps hnodup hkeeps
    rw [hkeys] at hkept
    obtain ⟨hok, hlast⟩ :=
      (keysKept_iff hnodup hempty (mem_of_isTyped hnodup) hadded).mp hkept
    refine ⟨hok, hlast, fun key v hv hne => ?_, fun key v t hv ht => ?_⟩
    · rw [← value_member hnodup hempty hwritten hv hne]
      exact hkeeps.member key v hv hne
    · rw [← value_type hnodup hok hwritten hv ht]
      exact hkeeps.type key v t hv ht
  · rintro ⟨hok, hlast, hmember, htype⟩
    have hkept := (keysKept_iff hnodup hok.nonempty (mem_of_isTyped hnodup) hadded).mpr
      ⟨hok, hlast⟩
    obtain ⟨value, hwritten⟩ := exists_itemsOf hkept.nodup
      (map_fst_written hnodup hok.nonempty hitems)
    refine ⟨_, value, hwritten, hkept.nodup, fun key => ?_, fun key v hv hne => ?_,
      fun key v t hv ht => ?_, hkept.direct⟩
    · rw [hkept.mem_iff, hasKey_iff hnodup]
    · rw [value_member hnodup hok.nonempty hwritten hv hne]
      exact hmember key v hv hne
    · rw [value_type hnodup hok hwritten hv ht]
      exact htype key v t hv ht

end Values

/-! ### Documents -/

section Documents

variable {ms : List (String × Json)}

theorem sizeOf_member {key : String} {v : Json} (h : (key, v) ∈ ms) :
    sizeOf v < sizeOf (Json.object ms) := by
  have hlt := List.sizeOf_lt_of_mem h
  rw [Prod.mk.sizeOf_spec] at hlt
  rw [Json.object.sizeOf_spec]
  omega

theorem mem_of_lookup {key : String} {v : Json} (h : ms.lookup key = some v) : (key, v) ∈ ms := by
  obtain ⟨l₁, l₂, rfl, -⟩ := List.lookup_eq_some_iff.mp h
  exact List.mem_append_right l₁ (List.mem_cons_self ..)

theorem sizeOf_type {v t : Json} (h : v.type? = some t) : sizeOf t < sizeOf v := by
  cases v with
  | scalar s => cases h
  | array es => cases h
  | object ms => exact sizeOf_member (mem_of_lookup h)

theorem distinct_type {v t : Json} (hv : Distinct v) (h : v.type? = some t) : Distinct t := by
  cases hv with
  | scalar s => cases h
  | array hes => cases h
  | object hnodup hmembers => exact hmembers kTypeKey t (mem_of_lookup h)

theorem hasKey_iff_mem {key : String} : hasKey ms key = true ↔ key ∈ ms.map Prod.fst := by
  rw [hasKey, ← not_iff_not, Bool.not_eq_true, Option.isSome_eq_false_iff, Option.isNone_iff_eq_none,
    List.lookup_eq_none_iff]
  constructor
  · intro h hkey
    obtain ⟨m, hm, rfl⟩ := List.mem_map.mp hkey
    exact bne_iff_ne.mp (h m hm) rfl
  · intro h m hm
    exact bne_iff_ne.mpr fun heq => h (heq ▸ List.mem_map_of_mem hm)

theorem keeps_object_iff {items : List Item} : KeepsContent (.object ms) (.object items) ↔
    ∃ keys value, items = itemsOf keys value ∧ KeepsMembers KeepsContent ms [] keys value := by
  constructor
  · intro h
    cases h with
    | @object _ keys value nodup mem_iff member type direct =>
      exact ⟨keys, value, rfl, nodup, fun key => by simp [mem_iff], member, type, direct⟩
  · rintro ⟨keys, value, rfl, h⟩
    exact .object h.nodup (fun key => by simp [h.mem_iff]) h.member h.type h.direct

theorem regular_object_iff : Regular (.object ms) ↔
    MembersOk (ms.map Prod.fst) (isTyped ms) ∧
      (∀ key v, (key, v) ∈ ms → key ≠ kTypeKey → Regular v) ∧
      ∀ key v t, (key, v) ∈ ms → v.type? = some t → Regular t := by
  constructor
  · intro h
    cases h with
    | object hok member type => exact ⟨hok, member, type⟩
  · rintro ⟨hok, member, type⟩
    exact .object hok member type

theorem added_nil (keys : List String) : Added keys [] := ⟨Nat.zero_le 1, nofun⟩

/-- The members are kept when values are kept exactly when they are regular. -/
theorem keepsMembers_iff_regular {added : List String} {addedItems : List Item}
    (hnodup : (ms.map Prod.fst).Nodup) (hadded : Added (ms.map Prod.fst) added)
    (hitems : addedItems.map Prod.fst = added.map some)
    (hvalue : ∀ key v, (key, v) ∈ ms → (KeepsContent v (convert v).value ↔ Regular v))
    (htype : ∀ key v t, (key, v) ∈ ms → v.type? = some t →
      (KeepsContent t (convert t).value ↔ Regular t)) :
    (∃ keys value, writeMembers (convertMembers ms) ++ addedItems = itemsOf keys value ∧
      KeepsMembers KeepsContent ms added keys value) ↔
      Regular (.object ms) ∧ TypesLast (ms.map Prod.fst) added := by
  rw [keepsMembers_iff hnodup hadded hitems, regular_object_iff]
  constructor
  · rintro ⟨hok, hlast, hmembers, htypes⟩
    exact ⟨⟨hok, fun key v hv hne => (hvalue key v hv).mp (hmembers key v hv hne),
      fun key v t hv ht => (htype key v t hv ht).mp (htypes key v t hv ht)⟩, hlast⟩
  · rintro ⟨⟨hok, hmembers, htypes⟩, hlast⟩
    exact ⟨hok, hlast, fun key v hv hne => (hvalue key v hv).mpr (hmembers key v hv hne),
      fun key v t hv ht => (htype key v t hv ht).mpr (htypes key v t hv ht)⟩

/-- What is written has the content exactly for regular values. -/
theorem keeps_iff_regular : ∀ d : Json, Distinct d → (KeepsContent d (convert d).value ↔ Regular d)
  | .scalar s, _ => ⟨fun _ => .scalar s, fun _ => .scalar s⟩
  | .array es, hd => by
    cases hd with
    | array hes =>
      have ih : ∀ e ∈ es, (KeepsContent e (convert e).value ↔ Regular e) := fun e he =>
        keeps_iff_regular e (hes e he)
      rw [convert, convertElements_eq_map]
      constructor
      · intro h
        cases h with
        | array hall =>
          rw [List.forall₂_map_right_iff, List.forall₂_same] at hall
          exact .array fun e he => (ih e he).mp (hall e he)
      · intro h
        cases h with
        | array hall =>
          refine .array ?_
          rw [List.forall₂_map_right_iff, List.forall₂_same]
          exact fun e he => (ih e he).mpr (hall e he)
  | .object ms, hd => by
    cases hd with
    | object hnodup hmembers =>
      have ih : ∀ key v, (key, v) ∈ ms → (KeepsContent v (convert v).value ↔ Regular v) :=
        fun key v hv => keeps_iff_regular v (hmembers key v hv)
      have ihType : ∀ key v t, (key, v) ∈ ms → v.type? = some t →
          (KeepsContent t (convert t).value ↔ Regular t) :=
        fun key v t hv ht => keeps_iff_regular t (distinct_type (hmembers key v hv) ht)
      have hitems : ([] : List Item).map Prod.fst = ([] : List String).map some := rfl
      have hkeeps := keepsMembers_iff_regular hnodup (added_nil _) hitems ih ihType
      rw [List.append_nil] at hkeeps
      rw [convert, keeps_object_iff, hkeeps]
      exact and_iff_left nofun
termination_by d => sizeOf d
decreasing_by
  · have hlt := List.sizeOf_lt_of_mem he
    rw [Json.array.sizeOf_spec]
    omega
  · exact sizeOf_member hv
  · exact Nat.lt_trans (sizeOf_type ht) (sizeOf_member hv)

/-- The keys that are added to a message. -/
def idAdded (ms : List (String × Json)) : List String := if hasKey ms "id" then [] else ["id"]

def idItems (ms : List (String × Json)) : List Item := if hasKey ms "id" then [] else [messageId]

theorem typeKeyOf_ne_id (k : String) : "id" ≠ typeKeyOf k := by
  intro h
  have hlength := five_le_typeKeyOf k
  rw [← h] at hlength
  exact absurd hlength (by decide)

theorem added_id : Added (ms.map Prod.fst) (idAdded ms) := by
  rw [idAdded]
  split
  · exact added_nil _
  · rename_i hid
    refine ⟨Nat.le_refl 1, fun a ha => ?_⟩
    obtain rfl := List.mem_singleton.mp ha
    exact ⟨fun hmem => hid (hasKey_iff_mem.mpr hmem), by decide, typeKeyOf_ne_id⟩

theorem map_fst_idItems : (idItems ms).map Prod.fst = (idAdded ms).map some := by
  rw [idItems, idAdded]
  split <;> rfl

theorem typesLast_id : TypesLast (ms.map Prod.fst) (idAdded ms) ↔
    (hasKey ms "id" = false → hasKey ms (typeKeyOf "id") = true →
      ∃ before, visits (ms.map Prod.fst) = before ++ [typeKeyOf "id"]) := by
  have htype : hasKey ms (typeKeyOf "id") = true ↔ typeKeyOf "id" ∈ ms.map Prod.fst :=
    hasKey_iff_mem
  rw [idAdded, htype]
  cases hasKey ms "id" with
  | true => exact ⟨fun _ => nofun, fun _ => nofun⟩
  | false =>
    constructor
    · exact fun h _ => h "id" (List.mem_singleton.mpr rfl)
    · intro h a ha
      obtain rfl := List.mem_singleton.mp ha
      exact h rfl

theorem keeps_message_iff (hd : Distinct (.object ms)) :
    (∃ keys value, writeMembers (convertMembers ms) ++ idItems ms = itemsOf keys value ∧
      KeepsMembers KeepsContent ms (idAdded ms) keys value) ↔
      Regular (.object ms) ∧ TypesLast (ms.map Prod.fst) (idAdded ms) := by
  cases hd with
  | object hnodup hmembers =>
    exact keepsMembers_iff_regular hnodup added_id map_fst_idItems
      (fun key v hv => keeps_iff_regular v (hmembers key v hv))
      fun key v t hv ht => keeps_iff_regular t (distinct_type (hmembers key v hv) ht)

/-- The content of a message is kept when no id is added to it. -/
theorem keeps_content_iff (hd : Distinct (.object ms)) :
    KeepsContent (.object ms) (.object (writeMembers (convertMembers ms) ++ idItems ms)) ↔
      hasKey ms "id" = true ∧ Regular (.object ms) := by
  by_cases hid : hasKey ms "id" = true
  · rw [idItems, if_pos hid, List.append_nil]
    have h := keeps_iff_regular (.object ms) hd
    rw [convert] at h
    rw [h]
    exact (and_iff_right hid).symm
  · refine ⟨fun h => ?_, fun h => absurd h.1 hid⟩
    obtain ⟨keys, value, hwritten, hkeeps⟩ := keeps_object_iff.mp h
    have hmem : messageId ∈ writeMembers (convertMembers ms) ++ idItems ms := by
      rw [idItems, if_neg hid]
      exact List.mem_append_right _ (List.mem_singleton.mpr rfl)
    have hkey : "id" ∈ keys := (mem_itemsOf.mp (hwritten ▸ hmem)).1
    rcases (hkeeps.mem_iff "id").mp hkey with (⟨-, hmem⟩ | ⟨k, v, -, -, heq⟩) | hadded
    · exact absurd (hasKey_iff_mem.mpr hmem) hid
    · exact absurd heq (typeKeyOf_ne_id k)
    · exact absurd hadded List.not_mem_nil

theorem fixJson_message (target : String)
    (h : (hasKey ms "destination" && hasKey ms "content") = true) :
    fixJson target (.object ms) =
      .object (writeMembers (convertMembers ms) ++ idItems ms) := if_pos h

theorem fixJson_content (target : String)
    (h : (hasKey ms "destination" && hasKey ms "content") = false) :
    fixJson target (.object ms) =
      .object ((some "destination", .object [(some "target", .scalar (.string target))]) ::
        ((convert (.object ms)).type.map fun t => (some "content_type", t)).toList ++
          [(some "content", .object (writeMembers (convertMembers ms) ++ idItems ms))]) := by
  have hcontent : typeKeyOf "content" = "content_type" := by decide
  have hfalse : ¬(hasKey ms "destination" && hasKey ms "content") = true := by rw [h]; nofun
  have hfix : fixJson target (.object ms) =
      .object ((some "destination", .object [(some "target", .scalar (.string target))]) ::
        writeMember "content" ⟨(convert (.object ms)).type,
          .object (writeMembers (convertMembers ms) ++ idItems ms)⟩) := if_neg hfalse
  rw [hfix, writeMember, if_neg (by decide), hcontent, List.cons_append]

theorem normalised_message_iff {target : String} {items : List Item}
    (h : (hasKey ms "destination" && hasKey ms "content") = true) :
    Normalised target (.object ms) (.object items) ↔
      ∃ keys value, (items = itemsOf keys value ∧ KeepsMembers KeepsContent ms (idAdded ms) keys value) ∧
        (hasKey ms "id" = false → value "id" = messageId.2) := by
  constructor
  · intro hnormalised
    cases hnormalised with
    | @message _ keys value hdestination hcontent hkeeps hid =>
      exact ⟨keys, value, ⟨rfl, hkeeps⟩, hid⟩
    | content hwrapper hkeeps htype => rw [h] at hwrapper; cases hwrapper
    | value hd hkeeps => exact absurd rfl (hd ms)
  · rintro ⟨keys, value, ⟨rfl, hkeeps⟩, hid⟩
    rw [Bool.and_eq_true] at h
    exact .message h.1 h.2 hkeeps hid

/-- The added id is the message id. -/
theorem value_id {keys : List String} {value : String → Written}
    (h : writeMembers (convertMembers ms) ++ idItems ms = itemsOf keys value)
    (hid : hasKey ms "id" = false) : value "id" = messageId.2 := by
  have hmem : messageId ∈ writeMembers (convertMembers ms) ++ idItems ms := by
    rw [idItems, hid]
    exact List.mem_append_right _ (List.mem_singleton.mpr rfl)
  exact (mem_itemsOf.mp (h ▸ hmem)).2

theorem option_rel_iff {type : Option Json} (htype : ∀ t, type = some t →
    (KeepsContent t (convert t).value ↔ Regular t)) :
    Option.Rel KeepsContent type (type.map fun t => (convert t).value) ↔
      ∀ t, type = some t → Regular t := by
  cases type with
  | none => exact ⟨fun _ => nofun, fun _ => .none⟩
  | some t =>
    rw [Option.map_some]
    constructor
    · intro h t' ht
      obtain rfl := Option.some.inj ht
      cases h with
      | some hkeeps => exact (htype t rfl).mp hkeeps
    · exact fun h => .some ((htype t rfl).mpr (h t rfl))

theorem normalised_content_iff {target : String} {type : Option Written} {w : Written}
    (h : (hasKey ms "destination" && hasKey ms "content") = false) :
    Normalised target (.object ms)
      (.object ((some "destination", .object [(some "target", .scalar (.string target))]) ::
        (type.map fun t => (some "content_type", t)).toList ++ [(some "content", w)])) ↔
      KeepsContent (.object ms) w ∧ Option.Rel KeepsContent (Json.object ms).type? type := by
  constructor
  · generalize hW : Written.object _ = W
    intro hnormalised
    cases hnormalised with
    | message hdestination hcontent => simp [hdestination, hcontent] at h
    | @content _ type' w' hwrapper hkeeps htype =>
      have hitems := (List.cons_eq_cons.mp (Written.object.inj hW)).2
      obtain ⟨htypes, hcontent⟩ := List.append_inj' hitems rfl
      obtain rfl : w = w' := by simpa using hcontent
      obtain rfl : type = type' := by cases type <;> cases type' <;> simp_all
      exact ⟨hkeeps, htype⟩
    | value hd hkeeps => exact absurd rfl (hd ms)
  · rintro ⟨hkeeps, htype⟩
    exact .content h hkeeps htype

theorem normalised_value_iff {target : String} {d : Json} {w : Written}
    (hd : ∀ ms, d ≠ .object ms) : Normalised target d w ↔ KeepsContent d w := by
  constructor
  · intro h
    cases h with
    | message => exact absurd rfl (hd _)
    | content => exact absurd rfl (hd _)
    | value _ hkeeps => exact hkeeps
  · exact .value hd

theorem regularDocument_value_iff {d : Json} (hd : ∀ ms, d ≠ .object ms) :
    RegularDocument d ↔ Regular d := by
  constructor
  · intro h
    cases h with
    | message => exact absurd rfl (hd _)
    | content => exact absurd rfl (hd _)
    | value _ hregular => exact hregular
  · exact .value hd

theorem regularDocument_message_iff
    (h : (hasKey ms "destination" && hasKey ms "content") = true) :
    RegularDocument (.object ms) ↔
      Regular (.object ms) ∧ TypesLast (ms.map Prod.fst) (idAdded ms) := by
  rw [typesLast_id]
  constructor
  · intro hdocument
    cases hdocument with
    | message hdestination hcontent hregular hid => exact ⟨hregular, hid⟩
    | content hwrapper => rw [h] at hwrapper; cases hwrapper
    | value hd => exact absurd rfl (hd ms)
  · rintro ⟨hregular, hid⟩
    rw [Bool.and_eq_true] at h
    exact .message h.1 h.2 hregular hid

theorem regularDocument_content_iff
    (h : (hasKey ms "destination" && hasKey ms "content") = false) :
    RegularDocument (.object ms) ↔ (hasKey ms "id" = true ∧ Regular (.object ms)) ∧
      ∀ t, (Json.object ms).type? = some t → Regular t := by
  constructor
  · intro hdocument
    cases hdocument with
    | message hdestination hcontent => simp [hdestination, hcontent] at h
    | content hwrapper hregular hid htype => exact ⟨⟨hid, hregular⟩, htype⟩
    | value hd => exact absurd rfl (hd ms)
  · rintro ⟨⟨hid, hregular⟩, htype⟩
    exact .content h hregular hid htype

/-- A document is normalised exactly when it is regular. -/
theorem normalised_iff (target : String) {d : Json} (hd : Distinct d) :
    Normalised target d (fixJson target d) ↔ RegularDocument d := by
  by_cases hobject : ∃ ms, d = .object ms
  · obtain ⟨ms, rfl⟩ := hobject
    cases hwrapper : hasKey ms "destination" && hasKey ms "content" with
    | true =>
      rw [fixJson_message target hwrapper, normalised_message_iff hwrapper,
        regularDocument_message_iff hwrapper, ← keeps_message_iff hd]
      constructor
      · rintro ⟨keys, value, h, -⟩
        exact ⟨keys, value, h⟩
      · rintro ⟨keys, value, h⟩
        exact ⟨keys, value, h, value_id h.1⟩
    | false =>
      have htype : ∀ t, (Json.object ms).type? = some t →
          (KeepsContent t (convert t).value ↔ Regular t) := fun t ht =>
        keeps_iff_regular t (distinct_type hd ht)
      rw [fixJson_content target hwrapper, convert_type, normalised_content_iff hwrapper,
        regularDocument_content_iff hwrapper, keeps_content_iff hd, option_rel_iff htype]
  · have hvalue : ∀ ms, d ≠ .object ms := fun ms heq => hobject ⟨ms, heq⟩
    have hfix : fixJson target d = (convert d).value := by
      cases d with
      | scalar s => rfl
      | array es => rfl
      | object ms => exact absurd rfl (hvalue ms)
    rw [hfix, normalised_value_iff hvalue, regularDocument_value_iff hvalue]
    exact keeps_iff_regular d hd

/-- `{"x": 1}` -/
def contentRequest : Json := .object [("x", .scalar (.number "1"))]

theorem distinct_contentRequest : Distinct contentRequest := by
  refine .object (by decide) fun key v hv => ?_
  obtain ⟨-, rfl⟩ := Prod.mk.inj (List.mem_singleton.mp hv)
  exact .scalar _

theorem normalised_iff_contentRequest : Distinct contentRequest ∧
    (Normalised "/intermodal" contentRequest (fixJson "/intermodal" contentRequest) ↔
      RegularDocument contentRequest) :=
  ⟨distinct_contentRequest, normalised_iff "/intermodal" distinct_contentRequest⟩

/-- The id is added to the content, not to the message around it. -/
theorem id_in_content : ¬∀ (target : String) (d : Json), Distinct d →
    Normalised target d (fixJson target d) := by
  intro h
  have hnormalised := h "/intermodal" contentRequest distinct_contentRequest
  have hwrapper : (hasKey [("x", .scalar (.number "1"))] "destination" &&
    hasKey [("x", .scalar (.number "1"))] "content") = false := by decide
  rw [contentRequest, fixJson_content _ hwrapper, normalised_content_iff hwrapper,
    keeps_content_iff distinct_contentRequest] at hnormalised
  exact absurd hnormalised.1.1 (by decide)

end Documents

end Motis.Module
