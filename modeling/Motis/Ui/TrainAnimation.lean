import Motis.Ui.TrainPath
import Mathlib.Data.List.Induction
import Mathlib.Algebra.Order.Field.Rat

/-! Where a moving train is shown.

    The cursor of a train is only searched forward, from the line it is on. Whatever was shown
    before, the new position is found if and only if it does not lie before that line.

        line        0     1     2     3
                 ├─────┼─────┼─────┼─────┤
        cursor               ▲
        new position   x             x'
                       missed        found

    Times that go back come when the simulated clock is changed (`setTimeOffset`): it keeps the
    trains. -/

namespace Motis.Ui.RailViz
open ForwardSearch

/-! ### The search -/

section Search
variable {K : Type} [Field K] [LinearOrder K] {t : Train K}

namespace Train

theorem Drawable.onPath_last (h : t.Drawable) {i : ℕ} (hi : i < t.polylines.length) (k : ℕ) :
    t.OnPath i (min k (t.lineCount i - 1)) := by
  have hp := List.getElem?_eq_getElem hi
  have hpos := h.lines _ (List.getElem_mem hi)
  exact ⟨_, hp, by rw [lineCount_eq hp]; omega⟩

theorem updateCurrPolyline_lt (h : t.Drawable) (pos : Option K) (i k : ℕ) :
    (t.updateCurrPolyline pos i k).1 < t.polylines.length := by
  have hpos := h.length_pos
  rw [updateCurrPolyline]
  exact Nat.lt_of_le_of_lt (Nat.min_le_right _ _) (by omega)

/-- A search always ends on a line. -/
theorem Drawable.locate_onPath (h : t.Drawable) (pos : Option K) (i k : ℕ) :
    t.OnPath (t.locate pos i k).polyline (t.locate pos i k).line :=
  h.onPath_last (updateCurrPolyline_lt h pos i k) _

/-- When no later polyline has the position, the search stays where it is or ends on the last. -/
theorem updateCurrPolyline_of_miss (pos : Option K) {i : ℕ} (hi : i < t.polylines.length)
    (hmiss : ∀ j, i < j → j < t.polylines.length → t.onPolyline pos j = false) (k : ℕ) :
    ∃ j, t.updateCurrPolyline pos i k = (j, k) ∧ (j = i ∨ j = t.polylines.length - 1) := by
  by_cases hon : t.onPolyline pos i = true
  · obtain ⟨hle, hlt, hfound⟩ := findFrom_of_exists ⟨i, le_refl i, hi, hon⟩
    have heq : findFrom (t.onPolyline pos) i t.polylines.length = i := by
      by_contra hne
      rw [hmiss _ (lt_of_le_of_ne hle (Ne.symm hne)) hlt] at hfound
      cases hfound
    refine ⟨i, ?_, Or.inl rfl⟩
    rw [updateCurrPolyline, heq]
    exact Prod.ext (Nat.min_eq_left (by omega)) (if_neg fun h => h.2 rfl)
  · have hnone : findFrom (t.onPolyline pos) i t.polylines.length = t.polylines.length := by
      rw [findFrom_of_forall fun j hij hj => ?_, Nat.max_eq_right hi.le]
      rcases Nat.eq_or_lt_of_le hij with rfl | hlt
      · exact Bool.eq_false_iff.mpr hon
      · exact hmiss j hlt hj
    refine ⟨t.polylines.length - 1, ?_, Or.inr rfl⟩
    rw [updateCurrPolyline, hnone]
    exact Prod.ext (Nat.min_eq_right (by omega)) (if_neg fun h => Nat.lt_irrefl _ h.1)

/-- A search that misses all lines ends on the last one. -/
theorem updateCurrLine_of_miss {pos : Option K} {j k : ℕ}
    (hmiss : ∀ l, k ≤ l → l < t.lineCount j → t.onLine pos j l = false) :
    t.updateCurrLine pos j k = t.lineCount j - 1 := by
  rw [updateCurrLine, findFrom_of_forall hmiss]
  omega

/-- Without a position the search always ends on the last line. -/
theorem Drawable.locate_none (h : t.Drawable) {i : ℕ} (hi : i < t.polylines.length) (k : ℕ) :
    t.locate none i k = t.locate none 0 0 := by
  have hlast : ∀ i k, i < t.polylines.length → t.locate none i k =
      t.cursorAt none (t.polylines.length - 1) (t.lineCount (t.polylines.length - 1) - 1) := by
    intro i k hi
    have hnone : findFrom (t.onPolyline none) i t.polylines.length = t.polylines.length := by
      rw [findFrom_of_forall fun j _ hj => ?_, Nat.max_eq_right hi.le]
      rw [onPolyline, List.getElem?_eq_getElem hj]
      rfl
    have hupdate : t.updateCurrPolyline none i k = (t.polylines.length - 1, k) := by
      rw [updateCurrPolyline, hnone]
      exact Prod.ext (Nat.min_eq_right (by omega)) (if_neg fun h => Nat.lt_irrefl _ h.1)
    rw [locate, hupdate]
    simp only
    rw [updateCurrLine_of_miss fun _ _ _ => rfl]
  rw [hlast i k hi, hlast 0 0 h.length_pos]

variable [IsStrictOrderedRing K]

theorem denotes_of_onLine {i k : ℕ} {x : K} (hpath : t.OnPath i k)
    (hon : t.onLine (some x) i k = true) : t.Denotes (t.cursorAt (some x) i k) x := by
  obtain ⟨p, hp, hk⟩ := hpath
  obtain ⟨hstart, hend⟩ := (onLine_iff hp hk).mp hon
  rw [Denotes, cursorAt, linePos_eq hp hk]
  exact lineProgress_within hstart hend

/-- A position that does not lie before the line the search starts from is found. -/
theorem Drawable.locate_onLine (h : t.Drawable) {i k : ℕ} {x : K} (hpath : t.OnPath i k)
    (hstart : (t.linePos i k).1 ≤ x) (hend : x ≤ t.totalLength) :
    t.onLine (some x) (t.locate (some x) i k).polyline (t.locate (some x) i k).line = true := by
  obtain ⟨p, hp, hk⟩ := hpath
  have hi := (List.getElem?_eq_some_iff.mp hp).1
  rw [linePos_eq hp hk] at hstart
  -- the polyline
  have hstart' : t.polylineStart i ≤ x := by
    rw [← h.lineStart_zero hp]
    exact le_trans (p.lineStart_mono (Nat.zero_le k)) hstart
  obtain ⟨j, hij, hj, hjx⟩ := exists_interval hi hstart' (h.total ▸ hend)
  obtain ⟨hle, hlt, hfound⟩ := findFrom_of_exists (p := t.onPolyline (some x))
    ⟨j, hij, hj, (h.onPolyline_iff (List.getElem?_eq_getElem hj)).mpr hjx⟩
  set j := findFrom (t.onPolyline (some x)) i t.polylines.length with hjdef
  have hq := List.getElem?_eq_getElem hlt
  set q := t.polylines[j] with hqdef
  have hpolyline : t.updateCurrPolyline (some x) i k = (j, if j ≠ i then 0 else k) := by
    rw [updateCurrPolyline, ← hjdef]
    refine Prod.ext (Nat.min_eq_left (by omega)) ?_
    simp only [hlt, true_and]
  obtain ⟨hjstart, hjend⟩ := (h.onPolyline_iff hq).mp hfound
  -- the line
  have hline : (if j ≠ i then 0 else k) < q.polyline.lineCount ∧
      q.lineStart (if j ≠ i then 0 else k) ≤ x := by
    by_cases hji : j = i
    · rw [if_neg (not_not.mpr hji)]
      have hpq : p = q := by
        rw [hji, hp] at hq
        exact Option.some.inj hq
      rw [← hpq]
      exact ⟨hk, hstart⟩
    · rw [if_pos hji, h.lineStart_zero hq]
      exact ⟨h.lines q (List.getElem_mem hlt), hjstart⟩
  rw [← h.lineStart_lineCount hq] at hjend
  obtain ⟨l, hkl, hl, hlx⟩ := exists_interval hline.1 hline.2 hjend
  obtain ⟨-, hllt, hlfound⟩ := findFrom_of_exists (p := t.onLine (some x) j)
    ⟨l, hkl, hl, (onLine_iff hq hl).mpr hlx⟩
  have hlocate : t.locate (some x) i k = t.cursorAt (some x) j
      (findFrom (t.onLine (some x) j) (if j ≠ i then 0 else k) q.polyline.lineCount) := by
    rw [locate, hpolyline]
    simp only
    rw [updateCurrLine, lineCount_eq hq]
    congr 1
    omega
  rw [hlocate]
  exact hlfound

/-- A position before the line the search starts from is missed: the search ends on a line behind
    it. -/
theorem Drawable.locate_behind (h : t.Drawable) {i k : ℕ} {x : K} (hpath : t.OnPath i k)
    (hx : x < (t.linePos i k).1) :
    x < (t.linePos (t.locate (some x) i k).polyline (t.locate (some x) i k).line).1 := by
  obtain ⟨p, hp, hk⟩ := hpath
  have hi := (List.getElem?_eq_some_iff.mp hp).1
  rw [linePos_eq hp hk] at hx
  -- the polylines behind the start lie behind the position
  have hlater : ∀ j, i < j → x < t.polylineStart j := fun j hj =>
    lt_of_lt_of_le hx (le_trans (p.lineStart_mono hk.le)
      (h.lineStart_lineCount hp ▸ polylineStart_mono hj))
  have hmiss : ∀ j, i < j → j < t.polylines.length → t.onPolyline (some x) j = false := by
    intro j hij hj
    rw [Bool.eq_false_iff, Ne, h.onPolyline_iff (List.getElem?_eq_getElem hj)]
    exact fun hjx => not_le.mpr (hlater j hij) hjx.1
  obtain ⟨j, hupdate, hcases⟩ := updateCurrPolyline_of_miss (some x) hi hmiss k
  have hj : j < t.polylines.length := by
    rcases hcases with rfl | rfl <;> omega
  have hq := List.getElem?_eq_getElem hj
  set q := t.polylines[j] with hqdef
  have hcount := h.lines q (List.getElem_mem hj)
  -- and so do the lines
  have hbehind : ∀ l, (j = i → k ≤ l) → x < q.lineStart l := by
    intro l hkl
    by_cases hji : j = i
    · have hpq : p = q := by
        rw [hji, hp] at hq
        exact Option.some.inj hq
      rw [← hpq]
      exact lt_of_lt_of_le hx (p.lineStart_mono (hkl hji))
    · refine lt_of_lt_of_le (hlater j (by omega)) ?_
      rw [← h.lineStart_zero hq]
      exact q.lineStart_mono (Nat.zero_le l)
  have hline : t.updateCurrLine (some x) j k = q.polyline.lineCount - 1 := by
    rw [← lineCount_eq hq]
    refine updateCurrLine_of_miss fun l hkl hl => ?_
    rw [lineCount_eq hq] at hl
    rw [Bool.eq_false_iff, Ne, onLine_iff hq hl]
    exact fun hlx => not_le.mpr (hbehind l fun _ => hkl) hlx.1
  have hlocate : t.locate (some x) i k = t.cursorAt (some x) j (q.polyline.lineCount - 1) := by
    rw [locate, hupdate]
    simp only
    rw [hline]
  have hlast : t.linePos j (q.polyline.lineCount - 1) = _ := linePos_eq hq (by omega)
  rw [hlocate, cursorAt]
  simp only
  rw [hlast]
  refine hbehind _ fun hji => ?_
  have hpq : p = q := by
    rw [hji, hp] at hq
    exact Option.some.inj hq
  rw [← hpq]
  omega

/-- A search that does not start behind the position denotes it. -/
theorem Drawable.locate_denotes (h : t.Drawable) {i k : ℕ} {x : K} (hpath : t.OnPath i k)
    (hstart : (t.linePos i k).1 ≤ x) (hend : x ≤ t.totalLength) :
    t.Denotes (t.locate (some x) i k) x :=
  denotes_of_onLine (h.locate_onPath _ i k) (h.locate_onLine hpath hstart hend)

/-- A cursor behind its position denotes nothing. -/
theorem not_denotes_of_behind {i k : ℕ} {x y : K} (hpath : t.OnPath i k)
    (hx : x < (t.linePos i k).1) : ¬t.Denotes (t.cursorAt (some x) i k) y := by
  rintro ⟨r, hr, hnonneg, -, -⟩
  obtain ⟨p, hp, hk⟩ := hpath
  rw [linePos_eq hp hk] at hx
  rw [cursorAt, linePos_eq hp hk] at hr
  have hlen : 0 ≤ p.lineStart (k + 1) - p.lineStart k :=
    sub_nonneg.mpr (p.lineStart_mono (Nat.le_succ k))
  exact not_le.mpr (lineProgress_before hx hlen hr) hnonneg

end Train

end Search

section Calls
variable {K : Type} [Field K] [LinearOrder K] {t : Train K}

namespace Train

/-! ### One call -/

/-- Both cursors denote the same point of the path, and show the same point of the map if the
    polylines are joined; or the train is not visible. -/
def SamePoint (t : Train K) : Option (Cursor K) → Option (Cursor K) → Prop
  | none, none => True
  | some c, some c' => (∃ x, t.Denotes c x ∧ t.Denotes c' x) ∧
      (t.Joined → t.drawnAt c = t.drawnAt c')
  | _, _ => False

/-- The position lies before the line that the cursor is on. -/
def Behind (t : Train K) (c : Option (Cursor K)) (time : K) : Prop :=
  t.dTime ≤ time ∧ time ≤ t.aTime ∧
    ∃ cur x, c = some cur ∧ t.posAt time = some x ∧ x < (t.linePos cur.polyline cur.line).1

/-- The cursor of a visible train is on its path. -/
def Valid (t : Train K) (c : Option (Cursor K)) : Prop :=
  ∀ cur, c = some cur → t.OnPath cur.polyline cur.line

theorem updatePosition_invisible {c : Option (Cursor K)} {time : K}
    (hv : time < t.dTime ∨ time > t.aTime) : (t.updatePosition c time).1 = none := by
  rw [updatePosition, if_pos hv]

theorem updatePosition_fresh {time : K} (hv : ¬(time < t.dTime ∨ time > t.aTime)) :
    (t.updatePosition none time).1 = some (t.locate (t.posAt time) 0 0) := by
  rw [updatePosition, if_neg hv]

theorem updatePosition_onLine {c : Cursor K} {time : K}
    (hv : ¬(time < t.dTime ∨ time > t.aTime))
    (hon : t.onLine (t.posAt time) c.polyline c.line = true) :
    (t.updatePosition (some c) time).1 = some (t.cursorAt (t.posAt time) c.polyline c.line) := by
  rw [updatePosition, if_neg hv]
  simp only
  rw [if_pos hon]

theorem updatePosition_locate {c : Cursor K} {time : K}
    (hv : ¬(time < t.dTime ∨ time > t.aTime))
    (hon : t.onLine (t.posAt time) c.polyline c.line ≠ true) :
    (t.updatePosition (some c) time).1 = some (t.locate (t.posAt time) c.polyline c.line) := by
  rw [updatePosition, if_neg hv]
  simp only
  rw [if_neg hon]

theorem Drawable.updatePosition_valid (h : t.Drawable) {c : Option (Cursor K)} (hc : t.Valid c)
    (time : K) : t.Valid (t.updatePosition c time).1 := by
  by_cases hv : time < t.dTime ∨ time > t.aTime
  · rw [updatePosition_invisible hv]
    exact nofun
  · intro cur hcur
    cases c with
    | none =>
      rw [updatePosition_fresh hv, Option.some.injEq] at hcur
      rw [← hcur]
      exact h.locate_onPath _ 0 0
    | some c =>
      by_cases hon : t.onLine (t.posAt time) c.polyline c.line = true
      · rw [updatePosition_onLine hv hon, Option.some.injEq] at hcur
        rw [← hcur]
        exact hc c rfl
      · rw [updatePosition_locate hv hon, Option.some.injEq] at hcur
        rw [← hcur]
        exact h.locate_onPath _ _ _

/-- A train without a position is shown on its last line. -/
theorem Drawable.updatePosition_of_posAt_none (h : t.Drawable) {c : Option (Cursor K)}
    (hc : t.Valid c) {time : K} (hv : ¬(time < t.dTime ∨ time > t.aTime))
    (hpos : t.posAt time = none) : (t.updatePosition c time).1 = some (t.locate none 0 0) := by
  cases c with
  | none => rw [updatePosition_fresh hv, hpos]
  | some c =>
    obtain ⟨p, hp, -⟩ := hc c rfl
    rw [updatePosition_locate hv (by rw [hpos]; exact Bool.false_ne_true), hpos,
      h.locate_none (List.getElem?_eq_some_iff.mp hp).1]

variable [IsStrictOrderedRing K]

/-- A visible position lies on the path. -/
theorem Drawable.posAt_mem (h : t.Drawable) {time x : K} (hd : t.dTime ≤ time)
    (ha : time ≤ t.aTime) (hx : t.posAt time = some x) : 0 ≤ x ∧ x ≤ t.totalLength := by
  rw [posAt] at hx
  split at hx
  · cases hx
  · obtain rfl := Option.some.inj hx
    have hpos : 0 < t.aTime - t.dTime := lt_of_le_of_ne (by linarith) (Ne.symm ‹_›)
    have htotal : 0 ≤ t.totalLength := by
      rw [h.total]
      exact polylineStart_mono (Nat.zero_le _)
    refine ⟨mul_nonneg (div_nonneg (by linarith) hpos.le) htotal, ?_⟩
    exact mul_le_of_le_one_left htotal ((div_le_one hpos).mpr (by linarith))

theorem Drawable.samePoint_of_denotes (h : t.Drawable) {c c' : Cursor K} {x : K}
    (hpath : t.OnPath c.polyline c.line) (hpath' : t.OnPath c'.polyline c'.line)
    (hc : t.Denotes c x) (hc' : t.Denotes c' x) : t.SamePoint (some c) (some c') :=
  ⟨⟨x, hc, hc'⟩, fun hjoined => h.drawnAt_eq hjoined hpath hpath' hc hc'⟩

/-- A call denotes its position if that does not lie before the current line. -/
theorem Drawable.updatePosition_denotes (h : t.Drawable) {c : Option (Cursor K)} (hc : t.Valid c)
    {time x : K} (hd : t.dTime ≤ time) (ha : time ≤ t.aTime) (hpos : t.posAt time = some x)
    (hb : ¬t.Behind c time) : ∃ c', (t.updatePosition c time).1 = some c' ∧ t.Denotes c' x := by
  have hv : ¬(time < t.dTime ∨ time > t.aTime) := not_or.mpr ⟨not_lt.mpr hd, not_lt.mpr ha⟩
  obtain ⟨hx0, hx1⟩ := h.posAt_mem hd ha hpos
  cases c with
  | none =>
    refine ⟨_, updatePosition_fresh hv, ?_⟩
    rw [hpos]
    exact h.locate_denotes h.onPath_first (h.linePos_first ▸ hx0) hx1
  | some c =>
    have hpath := hc c rfl
    have hstart : (t.linePos c.polyline c.line).1 ≤ x :=
      not_lt.mp fun hlt => hb ⟨hd, ha, c, x, rfl, hpos, hlt⟩
    by_cases hon : t.onLine (t.posAt time) c.polyline c.line = true
    · refine ⟨_, updatePosition_onLine hv hon, ?_⟩
      rw [hpos] at hon ⊢
      exact denotes_of_onLine hpath hon
    · refine ⟨_, updatePosition_locate hv hon, ?_⟩
      rw [hpos]
      exact h.locate_denotes hpath hstart hx1

/-- Otherwise it denotes nothing. -/
theorem Drawable.not_denotes (h : t.Drawable) {c : Option (Cursor K)} (hc : t.Valid c) {time : K}
    (hb : t.Behind c time) :
    ∃ c', (t.updatePosition c time).1 = some c' ∧ ∀ y, ¬t.Denotes c' y := by
  obtain ⟨hd, ha, c, x, rfl, hpos, hx⟩ := hb
  have hv : ¬(time < t.dTime ∨ time > t.aTime) := not_or.mpr ⟨not_lt.mpr hd, not_lt.mpr ha⟩
  have hpath := hc c rfl
  have hon : t.onLine (t.posAt time) c.polyline c.line ≠ true := by
    obtain ⟨p, hp, hk⟩ := hpath
    rw [linePos_eq hp hk] at hx
    rw [hpos, Ne, onLine_iff hp hk]
    exact fun hxl => not_le.mpr hx hxl.1
  refine ⟨_, updatePosition_locate hv hon, fun y => ?_⟩
  rw [hpos]
  exact not_denotes_of_behind (h.locate_onPath _ _ _) (h.locate_behind hpath hx)

/-- A call shows what a fresh train would show if and only if the position does not lie before the
    current line. -/
theorem Drawable.samePoint_iff (h : t.Drawable) {c : Option (Cursor K)} (hc : t.Valid c)
    (time : K) :
    t.SamePoint (t.updatePosition c time).1 (t.updatePosition none time).1 ↔
      ¬t.Behind c time := by
  have hnone : t.Valid none := nofun
  have hfresh : ¬t.Behind none time := fun ⟨_, _, _, _, hcur, _⟩ => nomatch hcur
  constructor
  · intro hsame hb
    obtain ⟨c', hc', hnot⟩ := h.not_denotes hc hb
    rw [hc'] at hsame
    cases hupdate : (t.updatePosition none time).1 with
    | none => rw [hupdate] at hsame; exact hsame
    | some c'' =>
      rw [hupdate] at hsame
      obtain ⟨⟨y, hy, -⟩, -⟩ := hsame
      exact hnot y hy
  · intro hb
    by_cases hv : time < t.dTime ∨ time > t.aTime
    · rw [updatePosition_invisible hv, updatePosition_invisible hv]
      trivial
    · obtain ⟨hd, ha⟩ : t.dTime ≤ time ∧ time ≤ t.aTime := by
        rw [not_or, not_lt, gt_iff_lt, not_lt] at hv
        exact hv
      cases hpos : t.posAt time with
      | none =>
        rw [h.updatePosition_of_posAt_none hc hv hpos, h.updatePosition_of_posAt_none hnone hv hpos]
        exact ⟨⟨_, ⟨0, rfl, le_refl 0, zero_le_one, rfl⟩, ⟨0, rfl, le_refl 0, zero_le_one, rfl⟩⟩,
          fun _ => rfl⟩
      | some x =>
        obtain ⟨c', hc', hx⟩ := h.updatePosition_denotes hc hd ha hpos hb
        obtain ⟨c'', hc'', hx'⟩ := h.updatePosition_denotes hnone hd ha hpos hfresh
        have hpath := h.updatePosition_valid hc time c' hc'
        have hpath' := h.updatePosition_valid hnone time c'' hc''
        rw [hc', hc'']
        exact h.samePoint_of_denotes hpath hpath' hx hx'

end Train

end Calls

/-! ### Runs -/

section Runs
variable {K : Type} [Field K] [LinearOrder K]

namespace Train

/-- The cursor of a new train after the calls with these times. -/
def after (t : Train K) (times : List K) : Option (Cursor K) :=
  times.foldl (fun c time => (t.updatePosition c time).1) none

theorem after_append (t : Train K) (times : List K) (time : K) :
    t.after (times ++ [time]) = (t.updatePosition (t.after times) time).1 := by
  rw [after, List.foldl_append]
  rfl

theorem Drawable.after_valid {t : Train K} (h : t.Drawable) (times : List K) :
    t.Valid (t.after times) := by
  induction times using List.reverseRecOn with
  | nil => exact nofun
  | append_singleton times time ih =>
    rw [after_append]
    exact h.updatePosition_valid ih time

/-- After each call the cursor shows what a new train shows at that time. -/
def AlwaysDirect (t : Train K) (times : List K) : Prop :=
  ∀ before time, before ++ [time] <+: times → t.SamePoint (t.after (before ++ [time]))
    (t.after [time])

/-- No time leads back before the line that the train is on. -/
def NeverBehind (t : Train K) (times : List K) : Prop :=
  ∀ before time, before ++ [time] <+: times → ¬t.Behind (t.after before) time

end Train

/-- However the clock is moved, a train is shown where it is if and only if it never has to go back
    before the line it is shown on. -/
theorem alwaysDirect_iff [IsStrictOrderedRing K] (polylines : List (Option (Polyline K)))
    (dTime aTime : K) (indices : List ℤ) (t : Train K)
    (hnew : Train.new polylines dTime aTime indices = some t) (hne : t.polylines ≠ [])
    (hcoords : ∀ p ∈ t.polylines, 2 ≤ p.polyline.coordinates.length) (times : List K) :
    t.AlwaysDirect times ↔ t.NeverBehind times := by
  have hdrawable := Train.new_drawable hnew hne hcoords
  refine forall_congr' fun before => forall_congr' fun time => imp_congr_right fun _ => ?_
  rw [Train.after_append]
  exact hdrawable.samePoint_iff (hdrawable.after_valid before) time

/-- Two lines of length one. -/
def twoLines : Polyline ℚ where
  coordinates := [(0, 0), (0, 1), (0, 2)]
  mercatorCoordinates := [⟨0, 0⟩, ⟨1, 0⟩, ⟨2, 0⟩]
  lineLengths := [1, 1]
  length_mercator := rfl
  length_lines := rfl
  nonneg := by simp
  closed i hi := by
    have hone := List.mem_of_getElem? hi
    norm_num at hone

def slowTrain : Train ℚ where
  dTime := 0
  aTime := 2
  polylines := [⟨true, 0, twoLines⟩]
  totalLength := 2

theorem twoLines_eq : preprocessPolyline alongX "???A?A" = some twoLines := by
  have hdecode : decode "???A?A" = [(0, 0), (0, 1), (0, 2)] := by decide
  simp only [preprocessPolyline, hdecode]
  norm_num [alongX, twoLines, Projection.lineLength]

theorem slowTrain_new :
    Train.new (["", "???A?A"].map (preprocessPolyline alongX)) 0 2 [1] = some slowTrain := by
  rw [List.map_cons, List.map_cons, twoLines_eq]
  norm_num [Train.new, polylineRefs, slowTrain, twoLines, Polyline.totalLength]

theorem alwaysDirect_iff_slowTrain :
    slowTrain.AlwaysDirect [2, 0] ↔ slowTrain.NeverBehind [2, 0] :=
  alwaysDirect_iff _ 0 2 [1] slowTrain slowTrain_new (by simp [slowTrain])
    (by simp [slowTrain, twoLines]) [2, 0]

/-- From the second line the clock goes back to the departure. -/
theorem not_direct_slowTrain :
    Train.new (["", "???A?A"].map (preprocessPolyline alongX)) 0 2 [1] = some slowTrain ∧
      slowTrain.polylines ≠ [] ∧ (∀ p ∈ slowTrain.polylines, 2 ≤ p.polyline.coordinates.length) ∧
      ¬slowTrain.AlwaysDirect [2, 0] := by
  refine ⟨slowTrain_new, by simp [slowTrain], by simp [slowTrain, twoLines], fun h => ?_⟩
  have hback : slowTrain.after [2, 0] = some ⟨0, 1, .number (-1)⟩ := by decide +kernel
  have hfresh : slowTrain.after [0] = some ⟨0, 0, .number 0⟩ := by decide +kernel
  have hsame := h [2] 0 (List.prefix_refl _)
  rw [List.singleton_append, hback, hfresh] at hsame
  obtain ⟨⟨x, ⟨r, hr, hnonneg, -⟩, -⟩, -⟩ := hsame
  obtain rfl := Progress.number.inj hr
  norm_num at hnonneg

end Runs

end Motis.Ui.RailViz
