import Mathlib.Tactic.Common

/-! Computations in `Except`: taking a successful one apart. -/

namespace Fallible

variable {ε α β γ : Type}

/-- A sequence of two computations succeeds when both do. -/
theorem bind_ok {x : Except ε α} {f : α → Except ε β} {r : β} (h : x >>= f = .ok r) :
    ∃ a, x = .ok a ∧ f a = .ok r := by
  cases x with
  | error e => cases h
  | ok a => exact ⟨a, rfl, h⟩

theorem ok_bind {x : Except ε α} {f : α → Except ε β} {a : α} (h : x = .ok a) :
    x >>= f = f a := by
  rw [h]
  rfl

/-- A continuation that always succeeds is a map. -/
theorem map_bind_ok {x : Except ε α} {f : α → β} {g : β → Except ε γ} {h : α → γ}
    (hg : ∀ d, g (f d) = .ok (h d)) : ((x.map f) >>= g) = x.map h := by
  cases x with
  | error e => rfl
  | ok d => exact hg d

/-- A loop succeeds when its first iteration and the remaining loop do. -/
theorem foldlM_cons_ok {f : β → α → Except ε β} {b r : β} {a : α} {l : List α}
    (h : (a :: l).foldlM f b = .ok r) : ∃ b', f b a = .ok b' ∧ l.foldlM f b' = .ok r :=
  bind_ok (by rwa [List.foldlM_cons] at h)

/-- What the successful iterations keep, a successful loop keeps. -/
theorem foldlM_inv (Inv : β → Prop) {f : β → α → Except ε β} {l : List α}
    (hstep : ∀ a ∈ l, ∀ b b', Inv b → f b a = .ok b' → Inv b') {b r : β} (hb : Inv b)
    (h : l.foldlM f b = .ok r) : Inv r := by
  induction l generalizing b with
  | nil =>
    obtain rfl := Except.ok.inj h
    exact hb
  | cons a l ih =>
    obtain ⟨b', hfirst, hrest⟩ := foldlM_cons_ok h
    obtain ⟨ha, hl⟩ := List.forall_mem_cons.mp hstep
    exact ih hl (ha b b' hb hfirst) hrest

theorem foldlM_congr {f g : β → α → Except ε β} {l : List α} (h : ∀ a ∈ l, ∀ b, f b a = g b a)
    (b : β) : l.foldlM f b = l.foldlM g b := by
  induction l generalizing b with
  | nil => rfl
  | cons a l ih =>
    obtain ⟨ha, hl⟩ := List.forall_mem_cons.mp h
    rw [List.foldlM_cons, List.foldlM_cons, ha]
    exact bind_congr fun _ => ih hl _

/-- A loop over lists is a loop over their elements. -/
theorem foldlM_flatMap {f : β → γ → Except ε β} {g : α → List γ} {b : β} {l : List α} :
    (l.flatMap g).foldlM f b = l.foldlM (fun b a => (g a).foldlM f b) b := by
  induction l generalizing b with
  | nil => rfl
  | cons a l ih =>
    rw [List.flatMap_cons, List.foldlM_append, List.foldlM_cons]
    exact bind_congr fun _ => ih

/-- A loop over two variables, the first of which is only computed. -/
theorem foldlM_prod {δ : Type} {f : β → α → β} {g : γ → δ → Except ε γ} {h : α → δ} {b : β} {c : γ}
    {l : List α} :
    l.foldlM (fun s a => do let c ← g s.2 (h a); pure (f s.1 a, c)) (b, c) =
      ((l.map h).foldlM g c).map fun c' => (l.foldl f b, c') := by
  induction l generalizing b c with
  | nil => rfl
  | cons a l ih =>
    rw [List.foldlM_cons, List.map_cons, List.foldlM_cons]
    cases hc : g c (h a) with
    | error e => rfl
    | ok c' => exact ih

/-- A loop whose iterations succeed, as long as an invariant holds, is a loop that cannot fail. -/
theorem foldlM_eq_ok (Inv : β → Prop) {f : β → α → Except ε β} {g : β → α → β} {l : List α}
    (h : ∀ a ∈ l, ∀ b, Inv b → f b a = .ok (g b a) ∧ Inv (g b a)) {b : β} (hb : Inv b) :
    l.foldlM f b = .ok (l.foldl g b) ∧ Inv (l.foldl g b) := by
  induction l generalizing b with
  | nil => exact ⟨rfl, hb⟩
  | cons a l ih =>
    obtain ⟨ha, hl⟩ := List.forall_mem_cons.mp h
    obtain ⟨hfirst, hinv⟩ := ha b hb
    rw [List.foldlM_cons, hfirst]
    exact ih hl hinv

/-- A loop whose iterations succeed simulates a loop over another state. -/
theorem foldlM_sim (R : β → γ → Prop) {f : β → α → Except ε β} {g : γ → α → γ} {l : List α}
    (h : ∀ a ∈ l, ∀ b c, R b c → ∃ b', f b a = .ok b' ∧ R b' (g c a)) {b : β} {c : γ}
    (hR : R b c) : ∃ b', l.foldlM f b = .ok b' ∧ R b' (l.foldl g c) := by
  induction l generalizing b c with
  | nil => exact ⟨b, rfl, hR⟩
  | cons a l ih =>
    obtain ⟨ha, hl⟩ := List.forall_mem_cons.mp h
    obtain ⟨b', hfirst, hR'⟩ := ha b c hR
    rw [List.foldlM_cons, hfirst]
    exact ih hl hR'

/-- A mapping succeeds when it does on every element. -/
theorem mapM_ok {f : α → Except ε β} {l : List α} {r : List β} (h : l.mapM f = .ok r) :
    List.Forall₂ (fun a b => f a = .ok b) l r := by
  induction l generalizing r with
  | nil =>
    rw [List.mapM_nil] at h
    obtain rfl := Except.ok.inj h
    exact .nil
  | cons a l ih =>
    rw [List.mapM_cons] at h
    obtain ⟨b, hb, h⟩ := bind_ok h
    obtain ⟨bs, hbs, h⟩ := bind_ok h
    obtain rfl := Except.ok.inj h
    exact .cons hb (ih hbs)

theorem mapM_of_forall₂ {f : α → Except ε β} {l : List α} {r : List β}
    (h : List.Forall₂ (fun a b => f a = .ok b) l r) : l.mapM f = .ok r := by
  induction h with
  | nil => rfl
  | cons hab _ ih =>
    rw [List.mapM_cons, hab, ih]
    rfl

/-- What holds of the elements and their results holds all along a mapping. -/
theorem forall₂_mapM_iff {f : α → Except ε β} {P : α → β → Prop} {l : List α} {r : List β}
    (h : l.mapM f = .ok r) : List.Forall₂ (fun a b => f a = .ok b ∧ P a b) l r ↔
      ∀ a ∈ l, ∀ b, f a = .ok b → P a b := by
  have hall := mapM_ok h
  clear h
  induction hall with
  | nil => simp
  | cons hab _ ih =>
    rw [List.forall₂_cons, List.forall_mem_cons]
    refine and_congr ⟨fun hP b' hb' => ?_, fun hP => ⟨hab, hP _ hab⟩⟩ ih
    obtain rfl := Except.ok.inj (hab.symm.trans hb')
    exact hP.2

/-- A mapping that succeeds on every element is a map. -/
theorem mapM_eq_ok {f : α → Except ε β} {g : α → β} {l : List α} (h : ∀ a ∈ l, f a = .ok (g a)) :
    l.mapM f = .ok (l.map g) := by
  induction l with
  | nil => rfl
  | cons a l ih =>
    obtain ⟨ha, hl⟩ := List.forall_mem_cons.mp h
    rw [List.mapM_cons, ha, ih hl]
    rfl

theorem mapM_total {f : α → Except ε β} {l : List α} (h : ∀ a ∈ l, ∃ b, f a = .ok b) :
    ∃ r, l.mapM f = .ok r := by
  induction l with
  | nil => exact ⟨[], rfl⟩
  | cons a l ih =>
    obtain ⟨⟨b, hb⟩, hl⟩ := List.forall_mem_cons.mp h
    obtain ⟨r, hr⟩ := ih hl
    exact ⟨b :: r, by rw [List.mapM_cons, hb, hr]; rfl⟩

/-- The results of a mapping are those of the elements. -/
theorem mem_mapM_ok {f : α → Except ε β} {l : List α} {r : List β} (h : l.mapM f = .ok r) {b : β} :
    b ∈ r ↔ ∃ a ∈ l, f a = .ok b := by
  induction l generalizing r with
  | nil =>
    obtain rfl := Except.ok.inj h
    simp
  | cons a l ih =>
    rw [List.mapM_cons] at h
    obtain ⟨b', hb', h⟩ := bind_ok h
    obtain ⟨r', hr', h⟩ := bind_ok h
    obtain rfl := Except.ok.inj h
    have hfirst : f a = .ok b ↔ b = b' := by
      rw [hb']
      exact ⟨fun h => (Except.ok.inj h).symm, fun h => h ▸ rfl⟩
    simp only [List.mem_cons, ih hr', exists_eq_or_imp, hfirst]

/-- A mapping that succeeds does so on every element. -/
theorem exists_of_mapM_ok {f : α → Except ε β} {l : List α} {r : List β} (h : l.mapM f = .ok r)
    {a : α} (ha : a ∈ l) : ∃ b ∈ r, f a = .ok b := by
  induction l generalizing r with
  | nil => cases ha
  | cons a' l ih =>
    rw [List.mapM_cons] at h
    obtain ⟨b', hb', h⟩ := bind_ok h
    obtain ⟨r', hr', h⟩ := bind_ok h
    obtain rfl := Except.ok.inj h
    rcases List.mem_cons.mp ha with rfl | ha
    · exact ⟨b', List.mem_cons_self .., hb'⟩
    · obtain ⟨b, hb, hf⟩ := ih hr' ha
      exact ⟨b, List.mem_cons_of_mem b' hb, hf⟩

theorem forM_ok {f : α → Except ε Unit} {l : List α} (h : l.forM f = .ok ()) :
    ∀ a ∈ l, f a = .ok () := by
  induction l with
  | nil => simp
  | cons a l ih =>
    obtain ⟨_, ha, h⟩ := bind_ok h
    exact List.forall_mem_cons.mpr ⟨ha, ih h⟩

/-- A loop in `Option` succeeds when every iteration does. -/
theorem mapM_eq_some {f : α → Option β} {g : α → β} {l : List α} (h : ∀ a ∈ l, f a = some (g a)) :
    l.mapM f = some (l.map g) := by
  induction l with
  | nil => rfl
  | cons a l ih =>
    obtain ⟨ha, hl⟩ := List.forall_mem_cons.mp h
    simp [List.mapM_cons, ha, ih hl]

theorem mapM_eq_none {f : α → Option β} {l : List α} {a : α} (ha : a ∈ l) (h : f a = none) :
    l.mapM f = none := by
  induction l with
  | nil => cases ha
  | cons b l ih =>
    rw [List.mapM_cons]
    rcases List.mem_cons.mp ha with rfl | ha
    · simp [h]
    · cases f b <;> simp [ih ha]

end Fallible
