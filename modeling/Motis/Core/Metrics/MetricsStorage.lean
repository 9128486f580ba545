import Motis.Lib.Ring
import Motis.Lib.Runs

/-! `metrics_storage`: one value for each of the last minutes.

    The minutes of a window have the slots of an array in turn. A later minute moves the window on,
    and clears the slots of the minutes it leaves behind:

        data_      [ 62 | 63 | 60 | 61 ]          at(64 * 60)  ──▶  [ 62 | 63 | 64 | 61 ]
                               ▲                                                     ▲
                          start_index_                                          start_index_

    The pointers that were handed out stay where they are. -/

namespace Motis

structure MetricsStorage (T : Type) (entries : ℕ) where
  data : Fin entries → T
  startIndex : ℕ
  startMins : ℕ

namespace MetricsStorage

variable {T : Type} [Inhabited T] {n : ℕ} [NeZero n]

def empty : MetricsStorage T n := ⟨fun _ => default, 0, 0⟩

/-- `static_cast<std::uint64_t>(ts / 60)` -/
def mins (ts : Int64) : ℕ := (ts / 60).toUInt64.toNat

/-- The position of a minute. -/
def pointer (s : MetricsStorage T n) (m : ℕ) : Fin n := Fin.ofNat n (s.startIndex + m - s.startMins)

/-- The body of the loop. -/
def clearFirst (s : MetricsStorage T n) : MetricsStorage T n where
  data := Function.update s.data (Fin.ofNat n s.startIndex) default
  startIndex := (s.startIndex + 1) % n
  startMins := s.startMins + 1

/-- `while (mins >= start_mins_ + Entries)` -/
def moveTo (m : ℕ) (s : MetricsStorage T n) : MetricsStorage T n :=
  if s.startMins + n ≤ m then moveTo m s.clearFirst else s
termination_by m + 1 - s.startMins
decreasing_by
  simp only [clearFirst]
  omega

/-- `at(ts)`: a pointer into the data. -/
def at' (s : MetricsStorage T n) (ts : Int64) : Option (Fin n) × MetricsStorage T n :=
  let m := mins ts
  if m < s.startMins then (none, s)
  else
    let s := if s.startMins = 0 then { s with startMins := m } else moveTo m s
    (some (s.pointer m), s)

/-- `at(ts) const` -/
def constAt (s : MetricsStorage T n) (ts : Int64) : Option (Fin n) :=
  let m := mins ts
  if s.startMins ≤ m ∧ m < s.startMins + n then some (s.pointer m) else none

/-- `*p = v` -/
def write (s : MetricsStorage T n) (p : Fin n) (v : T) : MetricsStorage T n :=
  { s with data := Function.update s.data p v }

theorem mins_eq {ts : Int64} (h : 0 ≤ ts) : (mins ts : ℤ) = ts.toInt / 60 := by
  have hnonneg : 0 ≤ ts.toInt := Int64.le_iff_toInt_le.mp h
  have hdiv : (ts / 60).toInt = ts.toInt / 60 := by
    rw [Int64.toInt_div_of_ne_right _ _ (by decide)]
    exact Int.tdiv_eq_ediv_of_nonneg hnonneg
  have hle : (0 : Int64) ≤ ts / 60 := by
    rw [Int64.le_iff_toInt_le, hdiv]
    exact Int.ediv_nonneg hnonneg (by decide)
  rw [mins, Int64.toNat_toUInt64_of_le hle, ← Int64.toNat_toInt, hdiv, Int.toNat_of_nonneg]
  exact Int.ediv_nonneg hnonneg (by decide)

theorem mins_pos {ts : Int64} (h : 60 ≤ ts) : 0 < mins ts := by
  have hsixty : 60 ≤ ts.toInt := Int64.le_iff_toInt_le.mp h
  have heq := mins_eq (Int64.le_iff_toInt_le.mpr ((by decide : (0 : ℤ) ≤ 60).trans hsixty))
  omega

/-! ### The window -/

open Ring

/-- The minutes of the window have these values in their slots, and the ones behind it have none
    yet. -/
structure Holds (first : ℕ) (value : ℕ → T) (s : MetricsStorage T n) : Prop where
  first_le : first ≤ s.startMins
  startIndex : s.startIndex = (s.startMins - first) % n
  data : ∀ m, s.startMins ≤ m → m < s.startMins + n → s.data (slot n first m) = value m
  behind : ∀ m, s.startMins + n ≤ m → value m = default

variable {first m : ℕ} {value : ℕ → T} {s : MetricsStorage T n}

theorem Holds.pointer_eq (h : Holds first value s) (hm : s.startMins ≤ m) :
    s.pointer m = slot n first m := by
  have hfirst := h.first_le
  have hsub : (s.startMins - first) % n + m - s.startMins =
      (s.startMins - first) % n + (m - s.startMins) := by omega
  have hadd : s.startMins - first + (m - s.startMins) = m - first := by omega
  apply Fin.ext
  show (s.startIndex + m - s.startMins) % n = (m - first) % n
  rw [h.startIndex, hsub, Nat.mod_add_mod, hadd]

theorem Holds.startSlot (h : Holds first value s) :
    Fin.ofNat n s.startIndex = slot n first s.startMins := by
  apply Fin.ext
  show s.startIndex % n = (s.startMins - first) % n
  rw [h.startIndex, Nat.mod_mod]

/-- The slot of the first minute of the window becomes that of the next one behind it. -/
theorem Holds.clearFirst (h : Holds first value s) : Holds first value s.clearFirst where
  first_le := h.first_le.trans (Nat.le_succ _)
  startIndex := by
    have hfirst := h.first_le
    have hadd : s.startMins - first + 1 = s.startMins + 1 - first := by omega
    show (s.startIndex + 1) % n = (s.startMins + 1 - first) % n
    rw [h.startIndex, Nat.mod_add_mod, hadd]
  data m hle hlt := by
    simp only [MetricsStorage.clearFirst] at hle hlt ⊢
    rw [h.startSlot]
    rcases (Nat.le_of_lt_succ (show m < s.startMins + n + 1 by omega)).lt_or_eq with hm | rfl
    · rw [Function.update_of_ne (slot_ne h.first_le hle hm).symm]
      exact h.data m (Nat.le_of_succ_le hle) hm
    · have hslot := slot_add_mul h.first_le (n := n) 1
      rw [Nat.mul_one] at hslot
      rw [hslot, Function.update_self]
      exact (h.behind _ le_rfl).symm
  behind m hle := h.behind m (by simp only [MetricsStorage.clearFirst] at hle; omega)

theorem Holds.moveTo (h : Holds first value s) (m : ℕ) : Holds first value (s.moveTo m) ∧
    (s.moveTo m).startMins = max s.startMins (m + 1 - n) := by
  fun_induction MetricsStorage.moveTo m s with
  | case1 s hle ih =>
    obtain ⟨hholds, hstart⟩ := ih h.clearFirst
    refine ⟨hholds, hstart.trans ?_⟩
    simp only [MetricsStorage.clearFirst]
    omega
  | case2 s hlt => exact ⟨h, by omega⟩

/-- Writing through the pointer of a minute, which may have left the window. -/
theorem Holds.write (h : Holds first value s) (hm : first ≤ m) (hlt : m < s.startMins + n) (v : T) :
    Holds first (Function.update value (inWindow n s.startMins m) v)
      (s.write (slot n first m) v) where
  first_le := h.first_le
  startIndex := h.startIndex
  data k hle hk := by
    simp only [MetricsStorage.write] at hle hk ⊢
    rw [← slot_inWindow hm s.startMins]
    by_cases heq : k = inWindow n s.startMins m
    · rw [heq, Function.update_self, Function.update_self]
    · have hin : s.startMins ≤ inWindow n s.startMins m := le_inWindow
      have hin' : inWindow n s.startMins m < s.startMins + n := inWindow_lt hlt
      have hne : slot n first k ≠ slot n first (inWindow n s.startMins m) := by
        rcases Nat.lt_or_gt_of_ne heq with hlt | hlt
        · exact slot_ne (h.first_le.trans hle) hlt (by omega)
        · exact (slot_ne (h.first_le.trans hin) hlt (by omega)).symm
      rw [Function.update_of_ne heq, Function.update_of_ne hne]
      exact h.data k hle hk
  behind k hk := by
    have hin' : inWindow n s.startMins m < s.startMins + n := inWindow_lt hlt
    rw [Function.update_of_ne (hin'.trans_le hk).ne']
    exact h.behind k hk

theorem Holds.at'_of_lt {ts : Int64} (hlt : mins ts < s.startMins) : s.at' ts = (none, s) :=
  if_pos hlt

theorem Holds.at'_of_le (h : Holds first value s) (hpos : 0 < first) {ts : Int64}
    (hle : s.startMins ≤ mins ts) :
    s.at' ts = (some (slot n first (mins ts)), s.moveTo (mins ts)) := by
  obtain ⟨hholds, hstart⟩ := h.moveTo (mins ts)
  have hne : s.startMins ≠ 0 := (hpos.trans_le h.first_le).ne'
  have hmoved : (s.moveTo (mins ts)).startMins ≤ mins ts := by
    have hn := Nat.pos_of_neZero n
    omega
  rw [at', if_neg (not_lt.mpr hle), if_neg hne, ← hholds.pointer_eq hmoved]

/-- The first minute starts the window. -/
theorem at'_empty (ts : Int64) : (empty : MetricsStorage T n).at' ts =
    (some (slot n (mins ts) (mins ts)), { empty with startMins := mins ts }) := by
  have hnonneg : ¬mins ts < (empty : MetricsStorage T n).startMins := Nat.not_lt_zero _
  have hunset : (empty : MetricsStorage T n).startMins = 0 := rfl
  have hpointer : slot n (mins ts) (mins ts) = Fin.ofNat n (0 + mins ts - mins ts) := by
    rw [slot, Nat.zero_add]
  rw [at', if_neg hnonneg, if_pos hunset, hpointer]
  rfl

theorem holds_start (m : ℕ) : Holds m (fun _ => default) { (empty : MetricsStorage T n) with
    startMins := m } where
  first_le := le_rfl
  startIndex := by
    show 0 = (m - m) % n
    rw [Nat.sub_self, Nat.zero_mod]
  data _ _ _ := rfl
  behind _ _ := rfl

/-! ### Histories -/

/-- A value written through the pointer that was returned for a minute, when the window was from
    `low` on. -/
structure Write (T : Type) where
  minute : ℕ
  low : ℕ
  value : T

variable (n) in
/-- Through an old pointer, the minute in the window that has the slot now. -/
def Write.target (wr : Write T) : ℕ := inWindow n wr.low wr.minute

/-- The last value written for a minute, where `of` says what a write is for. -/
def lastWritten (of : Write T → ℕ) (written : List (Write T)) (m : ℕ) : T :=
  ((written.find? fun wr => of wr = m).map (·.value)).getD default

variable (n) in
/-- `w = max(first minute, newest minute - Entries + 1)`, the last minute being the first of the
    list. -/
def low (minutes : List ℕ) : ℕ := max (minutes.getLastD 0) (minutes.foldr max 0 + 1 - n)

structure History (T : Type) (n : ℕ) where
  storage : MetricsStorage T n
  /-- Of the calls. -/
  minutes : List ℕ := []
  /-- The pointers, with their minutes. -/
  returned : List (Fin n × ℕ) := []
  written : List (Write T) := []

inductive Event (T : Type) where
  | at' (ts : Int64)
  /-- Through any pointer that was returned before. -/
  | write (k : ℕ) (v : T)

def History.step (h : History T n) : Event T → History T n
  | .at' ts =>
    let (p, storage) := h.storage.at' ts
    { h with
      storage, minutes := mins ts :: h.minutes
      returned := (p.map (·, mins ts)).toList ++ h.returned }
  | .write k v =>
    match h.returned[k]? with
    | none => h
    | some (p, m) =>
      { h with
        storage := h.storage.write p v
        written := ⟨m, low n h.minutes, v⟩ :: h.written }

variable (T n) in
def storages : Runs.System (History T n) (Event T) where
  enabled h
    | .at' ts => 60 ≤ ts
    | .write k _ => k < h.returned.length
  step := History.step

/-- A map of the minutes in a window. -/
structure Refines (of : Write T → ℕ) (h : History T n) : Prop where
  null_iff : ∀ ts, 60 ≤ ts →
    ((h.storage.at' ts).1 = none ↔ mins ts < low n (mins ts :: h.minutes))
  value : ∀ ts, 60 ≤ ts → ∀ p, (h.storage.at' ts).1 = some p →
    (h.storage.at' ts).2.data p = lastWritten of h.written (mins ts)
  constAt : h.minutes ≠ [] → ∀ ts, h.storage.constAt ts =
    if low n h.minutes ≤ mins ts ∧ mins ts < low n h.minutes + n then (h.storage.at' ts).1 else none

/-- What holds after the first call. -/
structure Started (first : ℕ) (h : History T n) : Prop where
  pos : 0 < first
  holds : Holds first (lastWritten (Write.target n) h.written) h.storage
  startMins : h.storage.startMins = low n h.minutes
  minutes : h.minutes ≠ []
  returned : ∀ r ∈ h.returned, r.1 = slot n first r.2 ∧ first ≤ r.2 ∧
    r.2 < h.storage.startMins + n

theorem lastWritten_cons (of : Write T → ℕ) (wr : Write T) (l : List (Write T)) :
    lastWritten of (wr :: l) = Function.update (lastWritten of l) (of wr) wr.value := by
  funext m
  rw [lastWritten, List.find?_cons]
  by_cases heq : of wr = m
  · rw [← heq, Function.update_self, decide_eq_true rfl]
    rfl
  · rw [Function.update_of_ne (Ne.symm heq), decide_eq_false heq]
    rfl

omit [NeZero n] in
theorem low_cons {minutes : List ℕ} (h : minutes ≠ []) (m : ℕ) :
    low n (m :: minutes) = max (low n minutes) (m + 1 - n) := by
  obtain ⟨l, first, rfl⟩ := (List.eq_nil_or_concat minutes).resolve_left h
  rw [low, low, List.concat_eq_append, ← List.cons_append, List.getLastD_concat,
    List.getLastD_concat, List.cons_append, List.foldr_cons,
    max_comm m, ← Nat.add_max_add_right, ← Nat.sub_max_sub_right, max_assoc]

theorem low_singleton (m : ℕ) : low n [m] = m := by
  have hn := Nat.pos_of_neZero n
  show max m (max m 0 + 1 - n) = m
  omega

section Steps

variable {h : History T n}

theorem Started.at' (hs : Started first h) (ts : Int64) : Started first (h.step (.at' ts)) := by
  have hlow := low_cons (n := n) hs.minutes (mins ts)
  have hstart := hs.startMins
  have hn := Nat.pos_of_neZero n
  rcases Nat.lt_or_ge (mins ts) h.storage.startMins with hlt | hle
  · rw [History.step, Holds.at'_of_lt hlt]
    exact ⟨hs.pos, hs.holds, by rw [hstart, hlow]; omega, List.cons_ne_nil _ _, hs.returned⟩
  · obtain ⟨hholds, hmoved⟩ := hs.holds.moveTo (mins ts)
    rw [History.step, hs.holds.at'_of_le hs.pos hle]
    refine ⟨hs.pos, hholds, by rw [hmoved, hlow, hstart], List.cons_ne_nil _ _, fun r hr => ?_⟩
    rcases List.mem_cons.mp hr with rfl | hr
    · refine ⟨rfl, hs.holds.first_le.trans hle, ?_⟩
      show mins ts < (h.storage.moveTo (mins ts)).startMins + n
      omega
    · obtain ⟨hslot, hfirst, hlt⟩ := hs.returned r hr
      exact ⟨hslot, hfirst, by rw [hmoved]; omega⟩

theorem Started.write (hs : Started first h) (k : ℕ) (v : T) :
    Started first (h.step (.write k v)) := by
  rw [History.step]
  split
  · exact hs
  · rename_i p m hget
    obtain ⟨hslot, hfirst, hlt⟩ := hs.returned _ (List.mem_of_getElem? hget)
    have hslot : p = slot n first m := hslot
    refine ⟨hs.pos, ?_, hs.startMins, hs.minutes, hs.returned⟩
    rw [lastWritten_cons, hslot]
    show Holds first (Function.update _ (inWindow n (low n h.minutes) m) v) _
    rw [← hs.startMins]
    exact hs.holds.write hfirst hlt v

theorem started_first {ts : Int64} (h : 60 ≤ ts) :
    Started (mins ts) (History.step ⟨(empty : MetricsStorage T n), [], [], []⟩ (.at' ts)) := by
  rw [History.step, at'_empty]
  refine ⟨mins_pos h, holds_start (mins ts), (low_singleton (mins ts)).symm,
    List.cons_ne_nil _ _, fun r hr => ?_⟩
  obtain rfl := List.mem_singleton.mp hr
  exact ⟨rfl, le_rfl, Nat.lt_add_of_pos_right (Nat.pos_of_neZero n)⟩

theorem Started.refines (hs : Started first h) : Refines (Write.target n) h where
  null_iff ts _ := by
    have hn := Nat.pos_of_neZero n
    rw [low_cons hs.minutes, ← hs.startMins]
    rcases Nat.lt_or_ge (mins ts) h.storage.startMins with hlt | hle
    · rw [Holds.at'_of_lt hlt]
      exact iff_of_true rfl (by omega)
    · rw [hs.holds.at'_of_le hs.pos hle]
      exact iff_of_false (Option.some_ne_none _) (by omega)
  value ts _ p hp := by
    rcases Nat.lt_or_ge (mins ts) h.storage.startMins with hlt | hle
    · rw [Holds.at'_of_lt hlt] at hp
      cases hp
    · obtain ⟨hholds, hmoved⟩ := hs.holds.moveTo (mins ts)
      have hn := Nat.pos_of_neZero n
      rw [hs.holds.at'_of_le hs.pos hle] at hp ⊢
      obtain rfl := Option.some.inj hp
      exact hholds.data (mins ts) (by omega) (by omega)
  constAt _ ts := by
    rw [MetricsStorage.constAt, ← hs.startMins]
    split
    · rename_i hin
      rw [hs.holds.at'_of_le hs.pos hin.1, hs.holds.pointer_eq hin.1]
    · rfl

/-- Before the first call, every minute has a slot. -/
theorem refines_empty (of : Write T → ℕ) :
    Refines of ⟨(empty : MetricsStorage T n), [], [], []⟩ where
  null_iff ts _ := by
    rw [at'_empty, low_singleton]
    exact iff_of_false (Option.some_ne_none _) (lt_irrefl _)
  value ts _ p _ := by
    rw [at'_empty]
    rfl
  constAt h := absurd rfl h

/-- In every run, with writes through pointers of any age. -/
theorem always_refines (T : Type) [Inhabited T] (n : ℕ) [NeZero n] (es : List (Event T))
    (hrun : Runs.Feasible (storages T n) ⟨empty, [], [], []⟩ es) :
    Runs.Always (storages T n) (Refines (Write.target n)) ⟨empty, [], [], []⟩ es := by
  refine (Runs.always_of_inductive (I := fun h => h = ⟨empty, [], [], []⟩ ∨
    ∃ first, Started first h) ?_ (.inl rfl) hrun).imp ?_
  · rintro h e (rfl | ⟨first, hs⟩) henabled
    · cases e with
      | at' ts => exact .inr ⟨_, started_first henabled⟩
      | write k v => exact absurd henabled (Nat.not_lt_zero _)
    · cases e with
      | at' ts => exact .inr ⟨first, hs.at' ts⟩
      | write k v => exact .inr ⟨first, hs.write k v⟩
  · rintro h (rfl | ⟨first, hs⟩)
    · exact refines_empty _
    · exact hs.refines

end Steps

/-! ### Old pointers -/

section Stale

/-- Minutes 1 and 1441 have the same slot. -/
def dayApart : List (Event ℕ) := [.at' 60, .at' 86460]

/-- The pointer of minute 1 is written when minute 1441 has the slot. -/
def stale : List (Event ℕ) := dayApart ++ [.write 1 7]

theorem mins_dayApart : mins 60 = 1 ∧ mins 86460 = 1441 := by decide

theorem moveTo_next {s : MetricsStorage ℕ 1440} (h : s.startMins = 1) :
    s.moveTo 1441 = s.clearFirst := by
  rw [moveTo, if_pos (by rw [h]), moveTo, if_neg]
  show ¬s.startMins + 1 + 1440 ≤ 1441
  omega

theorem exec_dayApart : Runs.exec (storages ℕ 1440) ⟨empty, [], [], []⟩ dayApart =
    ⟨⟨Function.update (fun _ => 0) 0 0, 1, 2⟩, [1441, 1], [(0, 1441), (0, 1)], []⟩ := by
  simp [Runs.exec, dayApart, storages, History.step, at', mins_dayApart, moveTo_next, clearFirst,
    pointer, empty]

theorem exec_stale : Runs.exec (storages ℕ 1440) ⟨empty, [], [], []⟩ stale =
    ⟨⟨Function.update (Function.update (fun _ => 0) 0 0) 0 7, 1, 2⟩, [1441, 1],
      [(0, 1441), (0, 1)], [⟨1, 2, 7⟩]⟩ := by
  rw [stale, Runs.exec, List.foldl_append]
  exact congrArg (fun h => History.step h (.write 1 7)) exec_dayApart

theorem feasible_stale :
    Runs.Feasible (storages ℕ 1440) ⟨empty, [], [], []⟩ stale := by
  refine ⟨(by decide : (60 : Int64) ≤ 60), (by decide : (60 : Int64) ≤ 86460), ?_, trivial⟩
  show 1 < (Runs.exec (storages ℕ 1440) ⟨empty, [], [], []⟩ dayApart).returned.length
  rw [exec_dayApart]
  decide

theorem always_refines_stale : Runs.Always (storages ℕ 1440) (Refines (Write.target 1440))
    ⟨empty, [], [], []⟩ stale :=
  always_refines ℕ 1440 stale feasible_stale

/-- Nothing was written for minute 1441, but its slot has a 7. -/
theorem not_always_refines_minute : ¬∀ (T : Type) [Inhabited T] (n : ℕ) [NeZero n]
    (es : List (Event T)), Runs.Feasible (storages T n) ⟨empty, [], [], []⟩ es →
    Runs.Always (storages T n) (Refines Write.minute) ⟨empty, [], [], []⟩ es := by
  intro h
  have hlast := (h ℕ 1440 stale feasible_stale).last
  rw [exec_stale] at hlast
  have hcall : at' ⟨Function.update (Function.update (fun _ => 0) 0 0) 0 7, 1, 2⟩ 86460 =
      (some (0 : Fin 1440), ⟨Function.update (Function.update (fun _ => 0) 0 0) 0 7, 1, 2⟩) := by
    rw [at', mins_dayApart.2, moveTo]
    rfl
  have hvalue := hlast.value 86460 (by decide) 0 (congrArg Prod.fst hcall)
  rw [congrArg Prod.snd hcall] at hvalue
  exact absurd hvalue (by decide)

end Stale

end MetricsStorage

end Motis
