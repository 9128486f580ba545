import Mathlib.Data.List.Basic
import Mathlib.Data.List.Nodup
import Mathlib.Tactic.Common

/-! Lists with headers.

    Some elements of a list get a header directly before them:

        [a, b, c]   b has a header   [a, header b, b, c] -/

namespace Headed

variable {α : Type}

/-- An element comes directly before another one. -/
def Directly (a b : α) (l : List α) : Prop := ∃ l₁ l₂, l = l₁ ++ a :: b :: l₂

theorem Directly.append {a b : α} {l : List α} (h : Directly a b l) (l' : List α) :
    Directly a b (l ++ l') := by
  obtain ⟨l₁, l₂, rfl⟩ := h
  exact ⟨l₁, l₂ ++ l', by simp⟩

/-- What comes directly before an element that is there once is in front of it. -/
theorem Directly.front {a b : α} {l₁ l₂ : List α} (h : Directly a b (l₁ ++ b :: l₂))
    (hnodup : (l₁ ++ b :: l₂).Nodup) : ∃ l, l₁ = l ++ [a] := by
  obtain ⟨m₁, m₂, hsplit⟩ := h
  have hsplit' : l₁ ++ b :: l₂ = (m₁ ++ [a]) ++ b :: m₂ := by simpa using hsplit
  have hnotMem : b ∉ l₁ ∧ b ∉ l₂ := by
    have hmiddle := (List.nodup_cons.mp (List.nodup_middle.mp hnodup)).1
    exact not_or.mp fun hb => hmiddle (List.mem_append.mpr hb)
  have hl := (List.append_cons_inj_of_notMem hnotMem.1 hnotMem.2).mp hsplit'
  exact ⟨m₁, hl.1⟩

theorem Directly.of_append {a b : α} {l l' : List α} (h : Directly a b (l ++ l'))
    (hnodup : (l ++ l').Nodup) (hb : b ∈ l) : Directly a b l := by
  obtain ⟨l₁, l₂, rfl⟩ := List.append_of_mem hb
  rw [List.append_assoc, List.cons_append] at h hnodup
  obtain ⟨l, rfl⟩ := h.front hnodup
  exact ⟨l, l₂, by simp⟩

section

variable (header : α → α) (head : α → Prop) [DecidablePred head]

def headed (l : List α) : List α := l.flatMap fun a => if head a then [header a, a] else [a]

/-- The first of an element and its header. -/
def first (a : α) : α := if head a then header a else a

variable {header head}

theorem headed_append (l l' : List α) :
    headed header head (l ++ l') = headed header head l ++ headed header head l' := by
  rw [headed, List.flatMap_append]
  rfl

theorem mem_header {a x : α} :
    x ∈ (if head a then [header a, a] else [a]) ↔ x = a ∨ head a ∧ x = header a := by
  split
  · rename_i hhead
    simp [hhead, or_comm]
  · rename_i hhead
    simp [hhead]

theorem mem_headed {l : List α} {x : α} :
    x ∈ headed header head l ↔ x ∈ l ∨ ∃ a ∈ l, head a ∧ x = header a := by
  simp only [headed, List.mem_flatMap, mem_header]
  constructor
  · rintro ⟨a, ha, rfl | ⟨hhead, rfl⟩⟩
    · exact .inl ha
    · exact .inr ⟨a, ha, hhead, rfl⟩
  · rintro (hx | ⟨a, ha, hhead, rfl⟩)
    · exact ⟨x, hx, .inl rfl⟩
    · exact ⟨a, ha, .inr ⟨hhead, rfl⟩⟩

variable (header head) in
theorem headed_concat (l : List α) (a : α) : ∃ l', headed header head (l ++ [a]) = l' ++ [a] := by
  rw [headed_append]
  by_cases hhead : head a
  · exact ⟨headed header head l ++ [header a], by simp [headed, hhead]⟩
  · exact ⟨headed header head l, by simp [headed, hhead]⟩

variable (header head) in
theorem headed_cons (a : α) (l : List α) :
    ∃ l', headed header head (a :: l) = first header head a :: l' := by
  by_cases hhead : head a
  · exact ⟨a :: headed header head l, by simp [headed, first, hhead]⟩
  · exact ⟨headed header head l, by simp [headed, first, hhead]⟩

theorem nodup_headed (hinjective : ∀ a b, header a = header b → a = b) {l : List α}
    (hnodup : l.Nodup) (hheader : ∀ a ∈ l, head a → header a ∉ l) :
    (headed header head l).Nodup := by
  rw [headed, List.nodup_flatMap]
  constructor
  · intro a ha
    split
    · rename_i hhead
      have hne : header a ≠ a := fun heq => hheader a ha hhead (heq.symm ▸ ha)
      simpa using hne
    · exact List.nodup_singleton a
  · refine hnodup.pairwise_of_forall_ne fun a ha b hb hab => ?_
    intro x hxa hxb
    rcases mem_header.mp hxa with rfl | ⟨hhead, rfl⟩
    · rcases mem_header.mp hxb with rfl | ⟨hhead, rfl⟩
      · exact hab rfl
      · exact hheader b hb hhead ha
    · rcases mem_header.mp hxb with heq | ⟨-, heq⟩
      · exact hheader a ha hhead (heq ▸ hb)
      · exact hab (hinjective a b heq)

theorem directly_header {l : List α} {a : α} (ha : a ∈ l) (hhead : head a) :
    Directly (header a) a (headed header head l) := by
  obtain ⟨l₁, l₂, rfl⟩ := List.append_of_mem ha
  refine ⟨headed header head l₁, headed header head l₂, ?_⟩
  rw [headed_append]
  simp [headed, hhead]

variable (header head) in
theorem Directly.headed {l : List α} {a b : α} (h : Directly a b l) :
    Directly a (first header head b) (headed header head l) := by
  obtain ⟨l₁, l₂, rfl⟩ := h
  obtain ⟨m₁, hm₁⟩ := headed_concat header head l₁ a
  obtain ⟨m₂, hm₂⟩ := headed_cons header head b l₂
  refine ⟨m₁, m₂, ?_⟩
  rw [List.append_cons, headed_append, hm₁, hm₂, List.append_assoc, List.singleton_append]

theorem directly_of_headed {l : List α} {a b : α} (hnodup : (headed header head l).Nodup)
    (hb : b ∈ l) (h : Directly a (first header head b) (headed header head l)) :
    Directly a b l := by
  obtain ⟨l₁, l₂, rfl⟩ := List.append_of_mem hb
  obtain ⟨m₂, hm₂⟩ := headed_cons header head b l₂
  rw [headed_append, hm₂] at h hnodup
  obtain ⟨m₁, hm₁⟩ := h.front hnodup
  rcases List.eq_nil_or_concat l₁ with rfl | ⟨l, x, rfl⟩
  · simp [headed] at hm₁
  · rw [List.concat_eq_append] at hm₁ ⊢
    obtain ⟨m, hm⟩ := headed_concat header head l x
    rw [hm] at hm₁
    obtain ⟨-, hx⟩ := List.append_inj' hm₁ rfl
    obtain rfl := List.singleton_inj.mp hx
    exact ⟨l, l₂, by simp⟩

end

end Headed
