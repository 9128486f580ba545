import Mathlib.Data.List.Lex
import Mathlib.Data.List.Infix
import Mathlib.Order.Bounds.Basic
import Mathlib.Order.WellFounded

/-! Prefixes in the lexicographic order.

    A prefix of a word comes before it, and what lies between a prefix and its word starts with the
    prefix, too. So the greatest name up to a word is its longest prefix among the names, unless
    a name that merely starts with that prefix lies between. -/

namespace PrefixOrder

variable {α : Type} {T : Set (List α)} {p n q : List α}

/-- `p` is the longest of the names `T` that are a prefix of `q`. -/
structure Longest (T : Set (List α)) (q p : List α) : Prop where
  mem : p ∈ T
  isPrefix : p <+: q
  longest : ∀ n ∈ T, n <+: q → n.length ≤ p.length

theorem Longest.unique (hp : Longest T q p) (hn : Longest T q n) : p = n := by
  have hlen : p.length = n.length :=
    le_antisymm (hn.longest p hp.mem hp.isPrefix) (hp.longest n hn.mem hn.isPrefix)
  exact (List.prefix_of_prefix_length_le hp.isPrefix hn.isPrefix hlen.le).eq_of_length hlen

/-- The longest of all names is the longest of those it belongs to. -/
theorem Longest.subset {T' : Set (List α)} (h : Longest T q p) (hsub : T' ⊆ T) (hp : p ∈ T') :
    Longest T' q p :=
  ⟨hp, h.isPrefix, fun n hn => h.longest n (hsub hn)⟩

/-- If some name is a prefix, there is a longest one. -/
theorem exists_longest (hn : n ∈ T) (hnq : n <+: q) : ∃ p, Longest T q p := by
  obtain ⟨p, ⟨hp, hpq⟩, hmin⟩ := (measure fun n : List α => q.length - n.length).wf.has_min
    {n | n ∈ T ∧ n <+: q} ⟨n, hn, hnq⟩
  refine ⟨p, hp, hpq, fun n hn hnq => ?_⟩
  have hlt : ¬ q.length - n.length < q.length - p.length := hmin n ⟨hn, hnq⟩
  have := hpq.length_le
  have := hnq.length_le
  omega

variable [LinearOrder α]

theorem le_of_isPrefix (h : p <+: q) : p ≤ q := not_lt.mp fun hlt => h.le hlt

theorem cons_le_cons {a b : α} : a :: p ≤ b :: q ↔ a < b ∨ a = b ∧ p ≤ q := by
  rw [← not_lt, List.cons_lt_cons_iff, not_or, not_and, not_lt, not_lt, le_iff_lt_or_eq]
  constructor
  · rintro ⟨hab | rfl, hpq⟩
    · exact .inl hab
    · exact .inr ⟨rfl, hpq rfl⟩
  · rintro (hab | ⟨rfl, hpq⟩)
    · exact ⟨.inl hab, fun heq => absurd heq hab.ne'⟩
    · exact ⟨.inr rfl, fun _ => hpq⟩

/-- Between a prefix and its word are only words that start with the prefix. -/
theorem prefix_of_between (hp : p <+: q) (hpn : p ≤ n) (hnq : n ≤ q) : p <+: n := by
  induction p generalizing n q with
  | nil => exact List.nil_prefix
  | cons a p ih =>
    obtain ⟨r, rfl⟩ := hp
    cases n with
    | nil => exact absurd hpn (not_le.mpr (List.nil_lt_cons a p))
    | cons b n =>
      rw [List.cons_append, cons_le_cons] at hnq
      rw [cons_le_cons] at hpn
      rcases hpn with hab | ⟨rfl, hpn⟩
      · rcases hnq with hba | ⟨rfl, -⟩
        · exact absurd hab hba.not_gt
        · exact absurd hab (lt_irrefl _)
      · rcases hnq with haa | ⟨-, hnq⟩
        · exact absurd haa (lt_irrefl _)
        · exact (List.prefix_cons_inj a).mpr (ih (List.prefix_append p r) hpn hnq)

/-- No other name that starts with `p` comes up to `q`. -/
def Unblocked (T : Set (List α)) (q p : List α) : Prop := ∀ n ∈ T, p <+: n → n ≤ q → n = p

/-- A greatest name that is a prefix is the longest one, and nothing blocks it. -/
theorem longest_of_isGreatest (h : IsGreatest {n | n ∈ T ∧ n ≤ q} p) (hp : p <+: q) :
    Longest T q p ∧ Unblocked T q p := by
  refine ⟨⟨h.1.1, hp, fun n hn hnq => ?_⟩, fun n hn hpn hnq => ?_⟩
  · have hnp : n ≤ p := h.2 ⟨hn, le_of_isPrefix hnq⟩
    rcases le_total n.length p.length with hle | hle
    · exact hle
    · exact (prefix_of_between hnq hnp (le_of_isPrefix hp)).length_le
  · exact le_antisymm (h.2 ⟨hn, hnq⟩) (le_of_isPrefix hpn)

/-- The longest name is the greatest when nothing blocks it. -/
theorem isGreatest_of_longest (h : Longest T q p) (hb : Unblocked T q p) :
    IsGreatest {n | n ∈ T ∧ n ≤ q} p := by
  refine ⟨⟨h.mem, le_of_isPrefix h.isPrefix⟩, ?_⟩
  rintro n ⟨hn, hnq⟩
  rcases le_total n p with hle | hle
  · exact hle
  · exact (hb n hn (prefix_of_between h.isPrefix hle hnq) hnq).le

end PrefixOrder
