import Mathlib.Data.Prod.Basic
import Mathlib.Data.Set.Insert
import Motis.Intermodal.Patches

/-! When the patches of a journey keep its indices consistent.

    The transports of the patched journey carry labels: the position of the transport each of them
    was before. `Denotes` says what the claim of the post-processing is in these terms: every range
    is the old range under one renumbering of the stops, the parts of a divided walk lie inside it.
    `Tracked` adds what the step lemma needs. One split keeps it (`Tracked.split`), a patch is one
    or two splits of its own walk, and the loops follow by induction over the patches. -/

namespace Motis.Intermodal
open Insertion Journey
open Ranged (range setRange)

/-- Transport `k` of the journey. -/
def walk (j : Journey) (k : ℕ) : Transport := j.transports.getD k {}

/-- The walks a journey has patches for: its transports that are to be divided, with their edges.
    Every walk has at most one patch and ends at a stop of the journey. -/
structure Recorded (j : Journey) where
  parking : List (ℕ × CarParkingEdge)
  gbfs : List (ℕ × GbfsEdge)
  nodup : (parking.map (·.1) ++ gbfs.map (·.1)).Nodup
  walks : ∀ k ∈ parking.map (·.1) ++ gbfs.map (·.1), k < j.transports.length ∧
    (walk j k).isWalk = true ∧ (walk j k).to_ < j.stops.length

/-- The patch that is recorded for a walk. -/
def patchOf {E : Type} (j : Journey) (r : ℕ × E) : ParkingPatch E :=
  ⟨r.2, (walk j r.1).from_, (walk j r.1).to_⟩

/-- The labels of the transports that are divided one after the other at `splits`. -/
def hits : List ℕ → List ℕ → List (Option ℕ)
  | _, [] => []
  | labels, x :: xs => labels[x]? :: hits (dup labels x) xs

def relabel (labels splits : List ℕ) : List ℕ := splits.foldl dup labels

/-- The ranges of the transports. -/
def ranges (j : Journey) : List (ℕ × ℕ) := j.transports.map range

/-- In `j`, numbered by `ρ`, every range still means the stops of `j₀`: a transport that is not in
    `S` is whole, the others are divided into single sections of their walk. -/
structure Denotes (j₀ : Journey) (S : Set ℕ) (ρ : ℕ → ℕ) (labels : List ℕ) (j : Journey) :
    Prop where
  mono : StrictMono ρ
  stops : ∀ (i : ℕ) s, j₀.stops[i]? = some s → j.stops[ρ i]? = some s
  trips : j.trips = j₀.trips.map (renumber ρ)
  attributes : j.attributes = j₀.attributes.map (renumber ρ)
  freeTexts : j.freeTexts = j₀.freeTexts.map (renumber ρ)
  problems : j.problems = j₀.problems.map (renumber ρ)
  length : labels.length = j.transports.length
  whole : ∀ x k : ℕ, labels[x]? = some k → k ∉ S →
    (ranges j)[x]? = some ((range (walk j₀ k)).map ρ ρ)
  parts : ∀ x k : ℕ, labels[x]? = some k → k ∈ S → ∃ a, (ranges j)[x]? = some (a, a + 1) ∧
    ρ (walk j₀ k).from_ ≤ a ∧ a + 1 ≤ ρ (walk j₀ k).to_

/-- A walk that its patch divides as a whole: one section long, and the first transport with its
    range. -/
def Dividable (j : Journey) (k : ℕ) : Prop :=
  (walk j k).to_ = (walk j k).from_ + 1 ∧ ∀ i < k, range (walk j i) ≠ range (walk j k)

/-- What a split keeps: the labels of whole transports are in order, parts end at new stops, and new
    stops lie in the divided walks only. -/
structure Tracked (j₀ : Journey) (S : Set ℕ) (ρ : ℕ → ℕ) (labels : List ℕ) (j : Journey) : Prop
    extends Denotes j₀ S ρ labels j where
  order : ∀ x y a b : ℕ, x < y → labels[x]? = some a → labels[y]? = some b → a ∉ S → b ∉ S → a < b
  present : ∀ k < j₀.transports.length, k ∉ S → ∃ x : ℕ, labels[x]? = some k
  fresh : ∀ x k a b : ℕ, labels[x]? = some k → k ∈ S → (ranges j)[x]? = some (a, b) →
    ¬ ((∃ i, ρ i = a) ∧ ∃ i, ρ i = b)
  apart : ∀ (x y k l : ℕ) r, labels[x]? = some k → labels[y]? = some l → k ∈ S → l ∈ S →
    (ranges j)[x]? = some r → (ranges j)[y]? = some r → x = y
  wide : ∀ k ∈ S, ρ (walk j₀ k).from_ + 2 ≤ ρ (walk j₀ k).to_
  zero : ρ 0 = 0
  steps : ∀ i, ρ (i + 1) = ρ i + 1 ∨ ∃ k ∈ S, range (walk j₀ k) = (i, i + 1)
  dividable : ∀ k ∈ S, Dividable j₀ k

theorem tracked_refl (j : Journey) :
    Tracked j ∅ id (List.range j.transports.length) j where
  mono := strictMono_id
  stops := fun _ _ h => h
  trips := by simp [renumber_id]
  attributes := by simp [renumber_id]
  freeTexts := by simp [renumber_id]
  problems := by simp [renumber_id]
  length := by simp
  whole := by
    intro x k hx _
    obtain ⟨hlt, rfl⟩ := List.getElem?_eq_some_iff.mp hx
    have hlt : x < j.transports.length := by simpa using hlt
    simp [ranges, walk, hlt]
  parts := by simp
  order := by
    intro x y a b hxy hx hy _ _
    obtain ⟨-, rfl⟩ := List.getElem?_eq_some_iff.mp hx
    obtain ⟨-, rfl⟩ := List.getElem?_eq_some_iff.mp hy
    simpa using hxy
  present := fun k hk _ => ⟨k, by simp [hk]⟩
  fresh := by simp
  apart := by simp
  wide := by simp
  zero := rfl
  steps := fun _ => Or.inl rfl
  dividable := by simp

/-! ### One split -/

/-- The transports after a split: the one at `x` is divided, all others are renumbered. -/
theorem getElem?_transports_insertStop {j : Journey} {x a : ℕ} {t : Transport}
    (hx : j.transports[x]? = some t) (hrange : range t = (a, a + 1)) (y : ℕ) :
    (insertStop j x (a + 1)).transports[y]? =
      if y < x then (j.transports[y]?).map (renumber (shift (a + 1)))
      else if y = x then some (setRange t (a, a + 1))
      else if y = x + 1 then some (setRange t (a + 1, a + 2))
      else (j.transports[y - 1]?).map (renumber (shift (a + 1))) := by
  obtain ⟨hlt, rfl⟩ := List.getElem?_eq_some_iff.mp hx
  have hlen : x < (updateIndices (a + 1) j.transports).length := by simpa [updateIndices] using hlt
  have hfrom : j.transports[x].from_ = a := congrArg Prod.fst hrange
  have hto : j.transports[x].to_ = a + 1 := congrArg Prod.snd hrange
  have hs : shift (a + 1) a = a := shift_of_lt (Nat.lt_succ_self a)
  have hs' : shift (a + 1) (a + 1) = a + 2 := shift_of_ge (Nat.le_refl (a + 1))
  simp only [insertStop, List.getElem?_modify, getElem?_dup hlen]
  rcases Nat.lt_trichotomy y x with h | rfl | h
  · have h1 : ¬ x = y := by omega
    have h2 : ¬ x + 1 = y := by omega
    simp [h, h1, h2, Nat.le_of_lt h, updateIndices]
  · simp [updateIndices, List.getElem?_eq_getElem hlt, renumber, setRange, range, hfrom, hto, hs,
      hs']
  · have h1 : ¬ x = y := by omega
    have h2 : ¬ y ≤ x := by omega
    have h3 : ¬ y < x := by omega
    have h4 : ¬ y = x := by omega
    rw [if_neg h2, if_neg h3, if_neg h4]
    rcases eq_or_ne y (x + 1) with hy | hy
    · subst hy
      simp [updateIndices, List.getElem?_eq_getElem hlt, renumber, setRange, range, hfrom, hto, hs,
        hs']
    · have h5 : ¬ x + 1 = y := by omega
      simp [h1, h5, hy, updateIndices]

/-- The ranges after a split. -/
theorem ranges_insertStop {j : Journey} {x a : ℕ} (hx : (ranges j)[x]? = some (a, a + 1)) (y : ℕ) :
    (ranges (insertStop j x (a + 1)))[y]? =
      if y < x then ((ranges j)[y]?).map (Prod.map (shift (a + 1)) (shift (a + 1)))
      else if y = x then some (a, a + 1)
      else if y = x + 1 then some (a + 1, a + 2)
      else ((ranges j)[y - 1]?).map (Prod.map (shift (a + 1)) (shift (a + 1))) := by
  rw [ranges, List.getElem?_map] at hx
  obtain ⟨t, ht, hrange⟩ := Option.map_eq_some_iff.mp hx
  have hmap : ∀ o : Option Transport, (o.map (renumber (shift (a + 1)))).map range =
      (o.map range).map (Prod.map (shift (a + 1)) (shift (a + 1))) := by
    intro o
    cases o <;> rfl
  simp only [ranges, List.getElem?_map, getElem?_transports_insertStop ht hrange]
  split
  · exact hmap _
  · split
    · rfl
    · split
      · rfl
      · exact hmap _

section Split
variable {j₀ j : Journey} {S : Set ℕ} {labels : List ℕ} {ρ : ℕ → ℕ} {x a k : ℕ}

/-- Every transport after a split is one of the two parts, or an old one renumbered. -/
theorem split_cases (hx : (ranges j)[x]? = some (a, a + 1)) (hk : labels[x]? = some k) {y l : ℕ}
    (hl : (dup labels x)[y]? = some l) :
    (y = x ∧ l = k ∧ (ranges (insertStop j x (a + 1)))[y]? = some (a, a + 1)) ∨
    (y = x + 1 ∧ l = k ∧ (ranges (insertStop j x (a + 1)))[y]? = some (a + 1, a + 2)) ∨
    ∃ y₀, y₀ ≠ x ∧ y = shift (x + 1) y₀ ∧ labels[y₀]? = some l ∧
      (ranges (insertStop j x (a + 1)))[y]? =
        ((ranges j)[y₀]?).map (Prod.map (shift (a + 1)) (shift (a + 1))) := by
  have hlt : x < labels.length := (List.getElem?_eq_some_iff.mp hk).1
  have hr := ranges_insertStop hx y
  rcases eq_or_ne y (x + 1) with hy | hy
  · subst hy
    refine Or.inr (Or.inl ⟨rfl, ?_, ?_⟩)
    · rw [getElem?_dup hlt, if_neg (by omega), Nat.add_sub_cancel, hk] at hl
      exact (Option.some.inj hl).symm
    · rw [hr, if_neg (by omega), if_neg (by omega), if_pos rfl]
  · obtain ⟨y₀, rfl⟩ := eq_shift_of_ne hy
    rw [getElem?_dup_shift hlt] at hl
    rcases eq_or_ne y₀ x with hy₀ | hy₀
    · subst hy₀
      have hs : shift (y₀ + 1) y₀ = y₀ := shift_of_lt (by omega)
      rw [hk] at hl
      exact Or.inl ⟨hs, (Option.some.inj hl).symm, by rw [hr, hs]; simp⟩
    · refine Or.inr (Or.inr ⟨y₀, hy₀, rfl, hl, ?_⟩)
      rw [hr]
      rcases Nat.lt_or_gt_of_ne hy₀ with h | h
      · rw [shift_of_lt (by omega), if_pos h]
      · rw [shift_of_ge (by omega), if_neg (by omega), if_neg (by omega), if_neg (by omega),
          Nat.add_sub_cancel]

/-- A whole transport has its label alone. -/
theorem Tracked.label_unique (h : Tracked j₀ S ρ labels j) {y z l : ℕ} (hy : labels[y]? = some l)
    (hz : labels[z]? = some l) (hl : l ∉ S) : y = z := by
  by_contra hne
  rcases Nat.lt_or_gt_of_ne hne with hlt | hlt
  · exact absurd (h.order y z l l hlt hy hz hl hl) (Nat.lt_irrefl l)
  · exact absurd (h.order z y l l hlt hz hy hl hl) (Nat.lt_irrefl l)

/-- The divided section lies inside its walk. -/
theorem Tracked.section_le (h : Tracked j₀ S ρ labels j) (hx : (ranges j)[x]? = some (a, a + 1))
    (hk : labels[x]? = some k) : ρ (walk j₀ k).from_ ≤ a ∧ a + 1 ≤ ρ (walk j₀ k).to_ := by
  by_cases hS : k ∈ S
  · obtain ⟨b, hb, hlo, hhi⟩ := h.parts x k hk hS
    have hab : (a, a + 1) = (b, b + 1) := Option.some.inj (hx.symm.trans hb)
    have : a = b := congrArg Prod.fst hab
    omega
  · have hw := Option.some.inj (hx.symm.trans (h.whole x k hk hS))
    have h1 : a = ρ (walk j₀ k).from_ := congrArg Prod.fst hw
    have h2 : a + 1 = ρ (walk j₀ k).to_ := congrArg Prod.snd hw
    omega

/-- No other part has the divided section. -/
theorem Tracked.section_ne (h : Tracked j₀ S ρ labels j) (hx : (ranges j)[x]? = some (a, a + 1))
    (hk : labels[x]? = some k) {y l b : ℕ} (hyx : y ≠ x) (hl : labels[y]? = some l) (hS : l ∈ S)
    (hb : (ranges j)[y]? = some (b, b + 1)) : b ≠ a := by
  rintro rfl
  by_cases hkS : k ∈ S
  · exact hyx (h.apart y x l k _ hl hk hS hkS hb hx)
  · have hw := Option.some.inj (hx.symm.trans (h.whole x k hk hkS))
    exact h.fresh y l b (b + 1) hl hS hb
      ⟨⟨_, (congrArg Prod.fst hw).symm⟩, ⟨_, (congrArg Prod.snd hw).symm⟩⟩

/-- One split of a section keeps everything in place. -/
theorem Tracked.split (h : Tracked j₀ S ρ labels j) (hx : (ranges j)[x]? = some (a, a + 1))
    (hk : labels[x]? = some k) (hdiv : Dividable j₀ k) :
    Tracked j₀ (insert k S) (shift (a + 1) ∘ ρ) (dup labels x) (insertStop j x (a + 1)) := by
  have hlt : x < labels.length := (List.getElem?_eq_some_iff.mp hk).1
  have hmono := shift_strictMono (a + 1)
  obtain ⟨hlo, hhi⟩ := h.section_le hx hk
  have hslo : shift (a + 1) (ρ (walk j₀ k).from_) = ρ (walk j₀ k).from_ := shift_of_lt (by omega)
  have hshi : shift (a + 1) (ρ (walk j₀ k).to_) = ρ (walk j₀ k).to_ + 1 := shift_of_ge hhi
  -- an old transport that is a part is a part of a walk divided before
  have hold : ∀ {y l : ℕ}, y ≠ x → labels[y]? = some l → l ∈ insert k S → l ∈ S := by
    intro y l hyx hl hmem
    rcases Set.mem_insert_iff.mp hmem with rfl | hS
    · by_contra hS
      exact hyx (h.label_unique hl hk hS)
    · exact hS
  have hupd : ∀ {α : Type} [Ranged α] (v : List α), (v.map (renumber ρ)).map
      (renumber (shift (a + 1))) = v.map (renumber (shift (a + 1) ∘ ρ)) := by
    intro α _ v
    rw [List.map_map]
    exact List.map_congr_left fun t _ => renumber_renumber ρ _ t
  refine { mono := hmono.comp h.mono, stops := ?_, trips := ?_, attributes := ?_, freeTexts := ?_,
           problems := ?_, length := ?_, whole := ?_, parts := ?_, order := ?_, present := ?_,
           fresh := ?_, apart := ?_, wide := ?_, zero := ?_, steps := ?_,
           dividable := ?_ }
  · intro i s hs
    rw [← h.stops i s hs]
    exact getElem?_insertIdx_shift ..
  · rw [← hupd, ← h.trips]; rfl
  · rw [← hupd, ← h.attributes]; rfl
  · rw [← hupd, ← h.freeTexts]; rfl
  · rw [← hupd, ← h.problems]; rfl
  · rw [length_dup hlt, h.length]
    have hlt' : x < (updateIndices (a + 1) j.transports).length := by
      rw [updateIndices, List.length_map, ← h.length]; exact hlt
    simp only [insertStop, List.length_modify, length_dup hlt']
    rw [updateIndices, List.length_map]
  · intro y l hl hS
    rw [Set.mem_insert_iff, not_or] at hS
    rcases split_cases hx hk hl with ⟨-, hlk, -⟩ | ⟨-, hlk, -⟩ | ⟨y₀, -, -, hl₀, hr⟩
    · exact absurd hlk hS.1
    · exact absurd hlk hS.1
    · rw [hr, h.whole y₀ l hl₀ hS.2]
      rfl
  · intro y l hl hS
    rcases split_cases hx hk hl with ⟨-, rfl, hr⟩ | ⟨-, rfl, hr⟩ | ⟨y₀, hne, -, hl₀, hr⟩
    · exact ⟨a, hr, by simp only [Function.comp_apply]; omega, by
        simp only [Function.comp_apply]; omega⟩
    · exact ⟨a + 1, hr, by simp only [Function.comp_apply]; omega, by
        simp only [Function.comp_apply]; omega⟩
    · have hlS := hold hne hl₀ hS
      obtain ⟨b, hb, hblo, hbhi⟩ := h.parts y₀ l hl₀ hlS
      have hba := h.section_ne hx hk hne hl₀ hlS hb
      have hstep : shift (a + 1) (b + 1) = shift (a + 1) b + 1 := by
        unfold shift
        split <;> split <;> omega
      refine ⟨shift (a + 1) b, by rw [hr, hb, ← hstep]; rfl, hmono.monotone hblo, ?_⟩
      rw [← hstep]
      exact hmono.monotone hbhi
  · intro y z b c hyz hb hc hbS hcS
    rw [Set.mem_insert_iff, not_or] at hbS hcS
    rcases split_cases hx hk hb with ⟨-, hbk, -⟩ | ⟨-, hbk, -⟩ | ⟨y₀, -, rfl, hb₀, -⟩
    · exact absurd hbk hbS.1
    · exact absurd hbk hbS.1
    rcases split_cases hx hk hc with ⟨-, hck, -⟩ | ⟨-, hck, -⟩ | ⟨z₀, -, rfl, hc₀, -⟩
    · exact absurd hck hcS.1
    · exact absurd hck hcS.1
    exact h.order y₀ z₀ b c ((shift_strictMono _).lt_iff_lt.mp hyz) hb₀ hc₀ hbS.2 hcS.2
  · intro l hl hS
    rw [Set.mem_insert_iff, not_or] at hS
    obtain ⟨y, hy⟩ := h.present l hl hS.2
    exact ⟨shift (x + 1) y, by rw [getElem?_dup_shift hlt, hy]⟩
  · rintro y l b c hl hS hr' ⟨⟨u, hu⟩, ⟨v, hv⟩⟩
    rcases split_cases hx hk hl with ⟨-, -, hr⟩ | ⟨-, -, hr⟩ | ⟨y₀, hne, -, hl₀, hr⟩
    · have hbc := Option.some.inj (hr'.symm.trans hr)
      exact shift_ne (a + 1) (ρ v) (hv.trans (congrArg Prod.snd hbc))
    · have hbc := Option.some.inj (hr'.symm.trans hr)
      exact shift_ne (a + 1) (ρ u) (hu.trans (congrArg Prod.fst hbc))
    · rw [hr, Option.map_eq_some_iff] at hr'
      obtain ⟨⟨b₀, c₀⟩, hr₀, hbc⟩ := hr'
      have hub : ρ u = b₀ := hmono.injective (hu.trans (congrArg Prod.fst hbc).symm)
      have hvc : ρ v = c₀ := hmono.injective (hv.trans (congrArg Prod.snd hbc).symm)
      exact h.fresh y₀ l b₀ c₀ hl₀ (hold hne hl₀ hS) hr₀ ⟨⟨u, hub⟩, ⟨v, hvc⟩⟩
  · intro y z l m r hl hm hlS hmS hry hrz
    -- an old part has no end at the new stop
    have hcase : ∀ {y l : ℕ}, (dup labels x)[y]? = some l → l ∈ insert k S →
        (ranges (insertStop j x (a + 1)))[y]? = some r →
        (y = x ∧ r = (a, a + 1)) ∨ (y = x + 1 ∧ r = (a + 1, a + 2)) ∨
        ∃ y₀ r₀, y = shift (x + 1) y₀ ∧ labels[y₀]? = some l ∧ l ∈ S ∧
          (ranges j)[y₀]? = some r₀ ∧ r = r₀.map (shift (a + 1)) (shift (a + 1)) := by
      intro y l hl hlS hry
      rcases split_cases hx hk hl with ⟨hy, -, hr⟩ | ⟨hy, -, hr⟩ | ⟨y₀, hne, hy, hl₀, hr⟩
      · exact Or.inl ⟨hy, Option.some.inj (hry.symm.trans hr)⟩
      · exact Or.inr (Or.inl ⟨hy, Option.some.inj (hry.symm.trans hr)⟩)
      · rw [hr, Option.map_eq_some_iff] at hry
        obtain ⟨r₀, hr₀, hmap⟩ := hry
        exact Or.inr (Or.inr ⟨y₀, r₀, hy, hl₀, hold hne hl₀ hlS, hr₀, hmap.symm⟩)
    have hend : ∀ r₀ : ℕ × ℕ, r = r₀.map (shift (a + 1)) (shift (a + 1)) →
        r.1 ≠ a + 1 ∧ r.2 ≠ a + 1 := by
      rintro r₀ rfl
      exact ⟨shift_ne _ _, shift_ne _ _⟩
    rcases hcase hl hlS hry with ⟨rfl, rfl⟩ | ⟨rfl, rfl⟩ | ⟨y₀, r₀, rfl, hl₀, hlS₀, hr₀, hmap⟩ <;>
      rcases hcase hm hmS hrz with ⟨rfl, hrr⟩ | ⟨rfl, hrr⟩ | ⟨z₀, q₀, rfl, hm₀, hmS₀, hq₀, hmap'⟩
    · rfl
    · exact absurd (congrArg Prod.fst hrr) (by simp)
    · exact absurd rfl (hend q₀ hmap').2
    · exact absurd (congrArg Prod.fst hrr) (by simp)
    · rfl
    · exact absurd rfl (hend q₀ hmap').1
    · exact absurd (congrArg Prod.snd hrr) (hend r₀ hmap).2
    · exact absurd (congrArg Prod.fst hrr) (hend r₀ hmap).1
    · have hrq : r₀ = q₀ :=
        Function.Injective.prodMap hmono.injective hmono.injective (hmap.symm.trans hmap')
      rw [h.apart y₀ z₀ l m r₀ hl₀ hm₀ hlS₀ hmS₀ hr₀ (hrq ▸ hq₀)]
  · intro l hl
    rcases Set.mem_insert_iff.mp hl with rfl | hS
    · simp only [Function.comp_apply]; omega
    · have := h.wide l hS
      simp only [Function.comp_apply]
      unfold shift
      split <;> split <;> omega
  · rw [Function.comp_apply, h.zero, shift_of_lt (by omega)]
  · intro i
    rcases h.steps i with hstep | ⟨l, hl, hr⟩
    · by_cases hin : ρ i ≤ a ∧ a < ρ (i + 1)
      · -- the new stop lies in this section, so it is the divided walk
        rw [hdiv.1] at hhi
        have hbelow : (walk j₀ k).from_ < i + 1 := h.mono.lt_iff_lt.mp (by omega)
        have habove : i < (walk j₀ k).from_ + 1 := h.mono.lt_iff_lt.mp (by omega)
        have hi : (walk j₀ k).from_ = i := by omega
        exact Or.inr ⟨k, Set.mem_insert k S, by rw [← hi, ← hdiv.1]; rfl⟩
      · refine Or.inl ?_
        simp only [Function.comp_apply, hstep]
        unfold shift
        split <;> split <;> omega
    · exact Or.inr ⟨l, Set.mem_insert_of_mem k hl, hr⟩
  · intro l hl
    rcases Set.mem_insert_iff.mp hl with rfl | hS
    · exact hdiv
    · exact h.dividable l hS

end Split

/-! ### Numbers and positions -/

section Numbering
variable {j₀ j : Journey} {S : Set ℕ} {labels : List ℕ} {ρ : ℕ → ℕ} {k : ℕ}

/-- A dividable walk that has not been divided is still one section long. -/
theorem Tracked.one_section (h : Tracked j₀ S ρ labels j) (hdiv : Dividable j₀ k) (hS : k ∉ S) :
    ρ (walk j₀ k).to_ = ρ (walk j₀ k).from_ + 1 := by
  rw [hdiv.1]
  rcases h.steps (walk j₀ k).from_ with hstep | ⟨l, hl, hr⟩
  · exact hstep
  · have heq : range (walk j₀ l) = range (walk j₀ k) := by rw [hr, ← hdiv.1]; rfl
    rcases Nat.lt_trichotomy l k with hlk | rfl | hlk
    · exact absurd heq (hdiv.2 l hlk)
    · exact absurd hl hS
    · exact absurd heq.symm ((h.dividable l hl).2 k hlk)

/-- Stops before all divided walks keep their number. -/
theorem Tracked.fixed (h : Tracked j₀ S ρ labels j) {i : ℕ} (hi : ∀ k ∈ S, i < (walk j₀ k).to_) :
    ρ i = i := by
  induction i with
  | zero => exact h.zero
  | succ i ih =>
    have ih := ih fun k hk => Nat.lt_of_succ_lt (hi k hk)
    rcases h.steps i with hstep | ⟨l, hl, hr⟩
    · rw [hstep, ih]
    · have hto : (walk j₀ l).to_ = i + 1 := congrArg Prod.snd hr
      have := hi l hl
      omega

/-- The stops from the end of a divided walk on have moved. -/
theorem Tracked.moved (h : Tracked j₀ S ρ labels j) {i : ℕ} (hk : k ∈ S)
    (hi : (walk j₀ k).to_ ≤ i) : i < ρ i := by
  obtain ⟨d, rfl⟩ := Nat.exists_eq_add_of_le hi
  have hwide := h.wide k hk
  have hone := (h.dividable k hk).1
  have hid := StrictMono.add_le_nat h.mono (walk j₀ k).from_ 0
  have hadd := StrictMono.add_le_nat h.mono d (walk j₀ k).to_
  rw [Nat.add_comm d (walk j₀ k).to_] at hadd
  rw [Nat.add_zero] at hid
  omega

theorem findTransport_some {r : ℕ × ℕ} {x : ℕ} :
    j.transports.findIdx? (range · == r) = some x ↔
      (ranges j)[x]? = some r ∧ ∀ z < x, (ranges j)[z]? ≠ some r := by
  rw [List.findIdx?_eq_some_iff_getElem]
  constructor
  · rintro ⟨hx, hr, hz⟩
    refine ⟨by simpa [ranges, hx] using hr, fun z hzx h => ?_⟩
    have hlt : z < j.transports.length := by omega
    have hne := hz z hzx
    simp only [ranges, List.getElem?_map, List.getElem?_eq_getElem hlt, Option.map_some,
      Option.some.injEq] at h
    simp [h] at hne
  · rintro ⟨hr, hz⟩
    have hx : x < j.transports.length := by
      by_contra hlen
      simp [ranges, List.getElem?_eq_none (Nat.not_lt.mp hlen)] at hr
    refine ⟨hx, by simpa [ranges, hx] using hr, fun z hzx => ?_⟩
    have hlt : z < j.transports.length := by omega
    have hne := hz z hzx
    simpa [ranges, List.getElem?_eq_getElem hlt] using hne

/-- The transport found for a whole walk is the first whole transport with the walk's old range. -/
theorem Tracked.find (h : Tracked j₀ S ρ labels j) (hk : k < j₀.transports.length) (hS : k ∉ S) :
    ∃ x k', j.transports.findIdx? (range · == (range (walk j₀ k)).map ρ ρ) = some x ∧
      labels[x]? = some k' ∧ k' ∉ S ∧ range (walk j₀ k') = range (walk j₀ k) ∧
      ∀ i < j₀.transports.length, i ∉ S → range (walk j₀ i) = range (walk j₀ k) → k' ≤ i := by
  obtain ⟨y, hy⟩ := h.present k hk hS
  have hry := h.whole y k hy hS
  cases hfind : j.transports.findIdx? (range · == (range (walk j₀ k)).map ρ ρ) with
  | none =>
    rw [List.findIdx?_eq_none_iff] at hfind
    simp only [ranges, List.getElem?_map, Option.map_eq_some_iff] at hry
    obtain ⟨t, ht, hr⟩ := hry
    simpa [hr] using hfind t (List.mem_of_getElem? ht)
  | some x =>
    obtain ⟨hx, hfirst⟩ := findTransport_some.mp hfind
    have hlt : x < labels.length := by
      rw [h.length]
      by_contra hlen
      simp [ranges, List.getElem?_eq_none (Nat.not_lt.mp hlen)] at hx
    obtain ⟨k', hk'⟩ : ∃ k', labels[x]? = some k' := ⟨_, List.getElem?_eq_getElem hlt⟩
    have hk'S : k' ∉ S := fun hmem =>
      h.fresh x k' _ _ hk' hmem hx ⟨⟨_, rfl⟩, ⟨_, rfl⟩⟩
    have hinj := Function.Injective.prodMap h.mono.injective h.mono.injective
    refine ⟨x, k', rfl, hk', hk'S, hinj (Option.some.inj ((h.whole x k' hk' hk'S).symm.trans hx)),
      fun i hi hiS hri => ?_⟩
    obtain ⟨z, hz⟩ := h.present i hi hiS
    have hrz := h.whole z i hz hiS
    rw [hri] at hrz
    rcases Nat.lt_trichotomy x z with hxz | rfl | hxz
    · exact Nat.le_of_lt (h.order x z k' i hxz hk' hz hk'S hiS)
    · exact le_of_eq (Option.some.inj (hk'.symm.trans hz))
    · exact absurd hrz (hfirst z hxz)

end Numbering

end Motis.Intermodal
