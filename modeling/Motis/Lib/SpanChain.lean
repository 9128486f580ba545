import Mathlib.Algebra.Order.Group.Int
import Mathlib.Data.List.Chain
import Mathlib.Tactic.Common

/-! Chains of spans.

    Each span begins a fixed step after the one before it ends:

        [first, last] gap [first, last] gap [first, last]

    What lies in the spans is in the order of the spans, so that sorted pieces stay sorted when they
    are put together. -/

namespace SpanChain

variable {α β : Type} {first last : β → ℤ} {gap : ℤ}

def Chained (first last : β → ℤ) (gap : ℤ) (l : List β) : Prop :=
  l.IsChain fun b c => first c = last b + gap

theorem Chained.cons {b : β} {l : List β} (h : Chained first last gap l)
    (hb : ∀ c ∈ l.head?, first c = last b + gap) : Chained first last gap (b :: l) :=
  List.IsChain.cons h hb

theorem Chained.concat {b : β} {l : List β} (h : Chained first last gap l)
    (hb : ∀ c ∈ l.getLast?, first b = last c + gap) : Chained first last gap (l ++ [b]) :=
  List.IsChain.append h (List.isChain_singleton b) fun c hc d hd => by
    obtain rfl : b = d := by simpa using hd
    exact hb c hc

/-- A span ends before all later ones begin. -/
theorem Chained.pairwise {l : List β} (h : Chained first last gap l) (hgap : 0 < gap)
    (hspan : ∀ b ∈ l, first b ≤ last b) : l.Pairwise fun b c => last b < first c := by
  induction l with
  | nil => exact .nil
  | cons b l ih =>
    obtain ⟨hb, hl⟩ := List.forall_mem_cons.mp hspan
    have htail : Chained first last gap l := List.IsChain.tail h
    have hpairwise := ih htail hl
    refine List.pairwise_cons.mpr ⟨fun c hc => ?_, hpairwise⟩
    cases l with
    | nil => cases hc
    | cons d l =>
      have hstep : first d = last b + gap := (List.isChain_cons_cons.mp h).1
      rcases List.mem_cons.mp hc with rfl | hc
      · omega
      · have hlater := (List.pairwise_cons.mp hpairwise).1 c hc
        have hd := hl d List.mem_cons_self
        omega

/-- All spans lie between the beginning of the first one and the end of the last one. -/
theorem Chained.within {l : List β} (h : Chained first last gap l) (hgap : 0 < gap)
    (hspan : ∀ b ∈ l, first b ≤ last b) {b : β} (hb : b ∈ l) :
    (∀ c ∈ l.head?, first c ≤ first b) ∧ ∀ c ∈ l.getLast?, last b ≤ last c := by
  have hpairwise := h.pairwise hgap hspan
  constructor
  · intro c hc
    obtain ⟨tail, rfl⟩ := List.head?_eq_some_iff.mp hc
    rcases List.mem_cons.mp hb with rfl | hb
    · exact le_rfl
    · have hlt := (List.pairwise_cons.mp hpairwise).1 b hb
      have hfirst := hspan c List.mem_cons_self
      omega
  · intro c hc
    obtain ⟨init, rfl⟩ := List.getLast?_eq_some_iff.mp hc
    rcases List.mem_append.mp hb with hb | hb
    · have hlt := (List.pairwise_append.mp hpairwise).2.2 b hb c (List.mem_singleton_self c)
      have hlast := hspan c (List.mem_append_right _ (List.mem_singleton_self c))
      omega
    · obtain rfl := List.mem_singleton.mp hb
      exact le_rfl

/-- Sorted pieces that lie in the spans are sorted as a whole. -/
theorem Chained.sorted {l : List β} (h : Chained first last gap l) (hgap : 0 < gap)
    (hspan : ∀ b ∈ l, first b ≤ last b) {items : β → List α} {key : α → ℤ}
    (hkey : ∀ b ∈ l, ∀ a ∈ items b, first b ≤ key a ∧ key a ≤ last b)
    (hsorted : ∀ b ∈ l, (items b).Pairwise (key · ≤ key ·)) :
    (l.flatMap items).Pairwise (key · ≤ key ·) := by
  refine List.pairwise_flatMap.mpr ⟨hsorted, ?_⟩
  refine (h.pairwise hgap hspan).imp_of_mem fun hb hc hlt x hx y hy => ?_
  have hxb := (hkey _ hb x hx).2
  have hyc := (hkey _ hc y hy).1
  omega

end SpanChain
