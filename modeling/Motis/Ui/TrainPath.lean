import Motis.Ui.RailvizModel
import Mathlib.Tactic.Ring

/-! The path of a train.

    Laid end to end, the lines of the polylines are a path, and a cursor with a progress between zero
    and one denotes a point of it by its distance from the start:

        polyline      0         1 (backward)
        line       0     1    0    1      2
                ├─────┼─────┼────┼────┼──────┤
                0        ▲                   totalLength
                  lineStart + progress * length

    Where the polylines are joined, a distance is one point of the map, whichever line it is taken
    to be on. -/

namespace Motis.Ui.RailViz
open ForwardSearch

section Path
variable {K : Type} [Field K] [LinearOrder K]

/-- A stretch of the path between two boundaries. -/
theorem within_iff {x a b : K} : within (some x) a (b - a) = true ↔ a ≤ x ∧ x ≤ b := by
  rw [within, Bool.and_eq_true, decide_eq_true_eq, decide_eq_true_eq, add_sub_cancel]

/-- On its line, the progress leads back to the position. -/
theorem lineProgress_within [IsStrictOrderedRing K] {x a b : K} (ha : a ≤ x) (hb : x ≤ b) :
    ∃ r, lineProgress (some x) a (b - a) = .number r ∧ 0 ≤ r ∧ r ≤ 1 ∧ a + r * (b - a) = x := by
  rw [lineProgress]
  by_cases hzero : b - a = 0
  · have hx : x = a := by linarith
    rw [if_pos hzero, if_pos hx]
    exact ⟨0, rfl, le_refl 0, zero_le_one, by rw [zero_mul, add_zero, hx]⟩
  · have hpos : 0 < b - a := lt_of_le_of_ne (by linarith) (Ne.symm hzero)
    rw [if_neg hzero]
    refine ⟨(x - a) / (b - a), rfl, div_nonneg (by linarith) hpos.le,
      (div_le_one hpos).mpr (by linarith), ?_⟩
    rw [div_mul_cancel₀ _ hzero, add_sub_cancel]

/-- Before its line, the progress is not between zero and one. -/
theorem lineProgress_before [IsStrictOrderedRing K] {x a len r : K} (hx : x < a) (hlen : 0 ≤ len)
    (hr : lineProgress (some x) a len = .number r) : r < 0 := by
  rw [lineProgress] at hr
  split at hr
  · rw [if_neg hx.ne] at hr
    cases hr
  · obtain rfl := Progress.number.inj hr
    exact div_neg_of_neg_of_pos (by linarith) (lt_of_le_of_ne hlen (Ne.symm ‹_›))

/-! ### Lines -/

namespace PolylineRef

variable (p : PolylineRef K)

/-- Where line `k` starts, in the direction of travel. -/
def lineStart (k : ℕ) : K :=
  if p.fwd then p.offset + p.polyline.lineOffset k
  else p.offset + p.polyline.totalLength - p.polyline.lineOffset (p.polyline.lineCount - k)

theorem lineStart_zero : p.lineStart 0 = p.offset := by
  rw [lineStart]
  split
  · rw [Polyline.lineOffset, boundary_zero, add_zero]
  · rw [Polyline.lineOffset, Polyline.lineCount, Nat.sub_zero, boundary_length,
      Polyline.totalLength, add_sub_cancel_right]

theorem lineStart_lineCount :
    p.lineStart p.polyline.lineCount = p.offset + p.polyline.totalLength := by
  rw [lineStart]
  split
  · rw [Polyline.lineOffset, Polyline.lineCount, boundary_length, Polyline.totalLength]
  · rw [Nat.sub_self, Polyline.lineOffset, boundary_zero, sub_zero]

theorem lineStart_mono [IsStrictOrderedRing K] {i j : ℕ} (hij : i ≤ j) :
    p.lineStart i ≤ p.lineStart j := by
  rw [lineStart, lineStart]
  split
  · exact add_le_add_right (boundary_mono p.polyline.nonneg hij) _
  · exact sub_le_sub_left (boundary_mono p.polyline.nonneg (Nat.sub_le_sub_left hij _)) _

/-- The offset and the length of a line, in both directions. -/
theorem getLinePos_eq {k : ℕ} (hk : k < p.polyline.lineCount) :
    p.getLinePos k = (p.lineStart k, p.lineStart (k + 1) - p.lineStart k) := by
  rw [getLinePos, lineStart, lineStart]
  split
  · rw [Polyline.lineOffset, Polyline.lineOffset, boundary_succ hk]
    exact Prod.ext rfl (by simp)
  · -- line `k` backward is line `lineCount - 1 - k`
    obtain ⟨i, hi⟩ : ∃ i, p.polyline.lineCount = i + k + 1 :=
      ⟨p.polyline.lineCount - (k + 1), by omega⟩
    have hsucc := boundary_succ (l := p.polyline.lineLengths) (i := i)
      (by rw [← Polyline.lineCount]; omega)
    have hidx : p.polyline.lineCount - 1 - k = i := by omega
    have hnext : p.polyline.lineCount - (k + 1) = i := by omega
    have hcurr : p.polyline.lineCount - k = i + 1 := by omega
    rw [hidx, hnext, hcurr, Polyline.lineOffset, Polyline.lineOffset, hsucc]
    exact Prod.ext rfl (by simp)

end PolylineRef

/-! ### Polylines -/

namespace Train
variable (t : Train K)

/-- Where polyline `i` starts. -/
def polylineStart (i : ℕ) : K := boundary (t.polylines.map (·.polyline.totalLength)) i

/-- The polylines lie end to end, and there are lines on all of them. -/
structure Drawable : Prop where
  offset : ∀ i p, t.polylines[i]? = some p → p.offset = t.polylineStart i
  total : t.totalLength = t.polylineStart t.polylines.length
  nonempty : t.polylines ≠ []
  lines : ∀ p ∈ t.polylines, 0 < p.polyline.lineCount

variable {t}

theorem linePos_eq {i k : ℕ} {p : PolylineRef K} (hp : t.polylines[i]? = some p)
    (hk : k < p.polyline.lineCount) :
    t.linePos i k = (p.lineStart k, p.lineStart (k + 1) - p.lineStart k) := by
  rw [linePos, hp]
  exact p.getLinePos_eq hk

theorem onLine_iff {i k : ℕ} {p : PolylineRef K} {x : K} (hp : t.polylines[i]? = some p)
    (hk : k < p.polyline.lineCount) :
    t.onLine (some x) i k = true ↔ p.lineStart k ≤ x ∧ x ≤ p.lineStart (k + 1) := by
  rw [onLine, linePos_eq hp hk]
  exact within_iff

theorem lineCount_eq {i : ℕ} {p : PolylineRef K} (hp : t.polylines[i]? = some p) :
    t.lineCount i = p.polyline.lineCount := by
  rw [lineCount, hp]

theorem polylineStart_succ {i : ℕ} {p : PolylineRef K} (hp : t.polylines[i]? = some p) :
    t.polylineStart (i + 1) = t.polylineStart i + p.polyline.totalLength := by
  have hi := (List.getElem?_eq_some_iff.mp hp).1
  rw [polylineStart, boundary_succ (by rwa [List.length_map]), List.getD_eq_getElem?_getD,
    List.getElem?_map, hp, Option.map_some, Option.getD_some, polylineStart]

theorem Drawable.onPolyline_iff (h : t.Drawable) {i : ℕ} {p : PolylineRef K} {x : K}
    (hp : t.polylines[i]? = some p) :
    t.onPolyline (some x) i = true ↔ t.polylineStart i ≤ x ∧ x ≤ t.polylineStart (i + 1) := by
  rw [onPolyline, hp, polylineStart_succ hp, ← h.offset i p hp]
  have hwithin := within_iff (x := x) (a := p.offset) (b := p.offset + p.polyline.totalLength)
  rwa [add_sub_cancel_left] at hwithin

/-- The lines of a polyline lie between its start and that of the next one. -/
theorem Drawable.lineStart_lineCount (h : t.Drawable) {i : ℕ} {p : PolylineRef K}
    (hp : t.polylines[i]? = some p) :
    p.lineStart p.polyline.lineCount = t.polylineStart (i + 1) := by
  rw [p.lineStart_lineCount, polylineStart_succ hp, h.offset i p hp]

theorem Drawable.lineStart_zero (h : t.Drawable) {i : ℕ} {p : PolylineRef K}
    (hp : t.polylines[i]? = some p) : p.lineStart 0 = t.polylineStart i := by
  rw [p.lineStart_zero, h.offset i p hp]

variable [IsStrictOrderedRing K]

theorem polylineStart_mono {i j : ℕ} (hij : i ≤ j) : t.polylineStart i ≤ t.polylineStart j := by
  refine boundary_mono (fun l hl => ?_) hij
  obtain ⟨p, -, rfl⟩ := List.mem_map.mp hl
  exact List.sum_nonneg p.polyline.nonneg

end Train

end Path

/-! ### The constructor -/

section New
variable {K : Type} [Field K] [LinearOrder K] {polylines : List (Option (Polyline K))}

theorem polylineRefs_placed {is : List ℤ} {offset totalLength : K} {refs : List (PolylineRef K)}
    (h : polylineRefs polylines offset is = some (refs, totalLength)) :
    (∀ i p, refs[i]? = some p →
      p.offset = offset + boundary (refs.map (·.polyline.totalLength)) i) ∧
    totalLength = offset + boundary (refs.map (·.polyline.totalLength)) refs.length := by
  induction is generalizing offset refs with
  | nil =>
    obtain ⟨rfl, rfl⟩ := Prod.mk.inj (Option.some.inj h)
    exact ⟨nofun, (add_zero _).symm⟩
  | cons i is ih =>
    rw [polylineRefs, Option.bind_eq_bind, Option.bind_eq_some_iff] at h
    obtain ⟨p, -, h⟩ := h
    rw [Option.bind_eq_bind, Option.bind_eq_some_iff] at h
    obtain ⟨⟨refs', total⟩, hrest, h⟩ := h
    obtain ⟨rfl, rfl⟩ := Prod.mk.inj (Option.some.inj h)
    obtain ⟨hoffset, htotal⟩ := ih hrest
    -- behind the first polyline everything starts later by its length
    have hcons : ∀ k, boundary (p.totalLength :: refs'.map (·.polyline.totalLength)) (k + 1) =
        p.totalLength + boundary (refs'.map (·.polyline.totalLength)) k := by
      intro k
      rw [boundary, List.take_succ_cons, List.sum_cons, boundary]
    refine ⟨fun k q hq => ?_, ?_⟩
    · cases k with
      | zero =>
        obtain rfl := Option.some.inj hq
        rw [boundary_zero, add_zero]
      | succ k => rw [hoffset k q hq, List.map_cons, hcons, add_assoc]
    · rw [htotal, List.map_cons, List.length_cons, hcons, add_assoc]

theorem Train.new_drawable {t : Train K} {dTime aTime : K} {indices : List ℤ}
    (h : Train.new polylines dTime aTime indices = some t) (hne : t.polylines ≠ [])
    (hcoords : ∀ p ∈ t.polylines, 2 ≤ p.polyline.coordinates.length) : t.Drawable := by
  rw [Train.new, Option.bind_eq_bind, Option.bind_eq_some_iff] at h
  obtain ⟨⟨refs, total⟩, hrefs, h⟩ := h
  obtain rfl := Option.some.inj h
  obtain ⟨hoffset, htotal⟩ := polylineRefs_placed hrefs
  refine ⟨fun i p hp => ?_, ?_, hne, fun p hp => ?_⟩
  · rw [hoffset i p hp, zero_add]
    rfl
  · exact htotal.trans (zero_add _)
  · have hlen := hcoords p hp
    rw [Polyline.lineCount, p.polyline.length_lines, p.polyline.length_mercator]
    omega

end New

/-! ### Points of the path -/

section Denotes
variable {K : Type} [Field K] [LinearOrder K] {t : Train K}

namespace Train

/-- The cursor is on a line that exists. -/
def OnPath (t : Train K) (i k : ℕ) : Prop :=
  ∃ p, t.polylines[i]? = some p ∧ k < p.polyline.lineCount

theorem Drawable.length_pos (h : t.Drawable) : 0 < t.polylines.length :=
  List.length_pos_iff.mpr h.nonempty

theorem Drawable.onPath_first (h : t.Drawable) : t.OnPath 0 0 :=
  ⟨_, List.getElem?_eq_getElem h.length_pos, h.lines _ (List.getElem_mem h.length_pos)⟩

theorem Drawable.linePos_first (h : t.Drawable) : (t.linePos 0 0).1 = 0 := by
  obtain ⟨p, hp, hk⟩ := h.onPath_first
  rw [linePos_eq hp hk, h.lineStart_zero hp]
  exact boundary_zero (l := t.polylines.map (·.polyline.totalLength))

/-- The cursor is on the line of the position, and its progress leads there. -/
def Denotes (t : Train K) (c : Cursor K) (x : K) : Prop :=
  ∃ r, c.progress = .number r ∧ 0 ≤ r ∧ r ≤ 1 ∧
    (t.linePos c.polyline c.line).1 + r * (t.linePos c.polyline c.line).2 = x

end Train

end Denotes

/-! ### The point on the map -/

namespace Train

/-- The start of a line, which is all of a line without length. -/
theorem mix_start {K : Type} [Field K] {a b : MercatorCoordinate K} {r length : K} (hr : r * length = 0)
    (hab : length = 0 → a = b) : mix a b r = a := by
  rcases mul_eq_zero.mp hr with rfl | hzero
  · exact MercatorCoordinate.ext (by simp [mix]) (by simp [mix])
  · rw [hab hzero]
    exact MercatorCoordinate.ext (by rw [mix]; ring) (by rw [mix]; ring)

theorem mix_end {K : Type} [Field K] {a b : MercatorCoordinate K} {r length : K} (hr : r * length = length)
    (hab : length = 0 → a = b) : mix a b r = b := by
  rcases eq_or_ne length 0 with hzero | hne
  · rw [hab hzero]
    exact MercatorCoordinate.ext (by rw [mix]; ring) (by rw [mix]; ring)
  · obtain rfl : r = 1 := mul_right_cancel₀ hne (hr.trans (one_mul length).symm)
    exact MercatorCoordinate.ext (by simp [mix]) (by simp [mix])

end Train

section Points
variable {K : Type} [Field K] [LinearOrder K]

/-- Where line `k` starts on the map, in the direction of travel. -/
def PolylineRef.vertex (p : PolylineRef K) (k : ℕ) : Option (MercatorCoordinate K) :=
  p.polyline.mercatorCoordinates[if p.fwd then k else p.polyline.lineCount - k]?

theorem PolylineRef.vertex_succ {p : PolylineRef K} {k : ℕ} (hk : k < p.polyline.lineCount)
    (h : p.lineStart k = p.lineStart (k + 1)) : p.vertex k = p.vertex (k + 1) := by
  have hpos := p.getLinePos_eq hk
  rw [h, sub_self] at hpos
  -- the line has no length
  have hlength := congrArg Prod.snd hpos
  have hclosed : ∀ i, i < p.polyline.lineCount → p.polyline.lineLengths.getD i 0 = 0 →
      p.polyline.mercatorCoordinates[i]? = p.polyline.mercatorCoordinates[i + 1]? := by
    intro i hi hzero
    refine p.polyline.closed i ?_
    rw [List.getElem?_eq_getElem hi]
    rw [List.getD_eq_getElem?_getD, List.getElem?_eq_getElem hi, Option.getD_some] at hzero
    rw [hzero]
  rw [vertex, vertex]
  rw [PolylineRef.getLinePos] at hlength
  split
  · rw [if_pos ‹_›] at hlength
    exact hclosed k hk hlength
  · rw [if_neg ‹_›] at hlength
    have hprev := hclosed (p.polyline.lineCount - 1 - k) (by omega) hlength
    have hnext : p.polyline.lineCount - 1 - k + 1 = p.polyline.lineCount - k := by omega
    have hcurr : p.polyline.lineCount - 1 - k = p.polyline.lineCount - (k + 1) := by omega
    rw [hnext, hcurr] at hprev
    exact hprev.symm

variable {t : Train K}

/-- The polylines of the train are joined at their ends. -/
def Train.Joined (t : Train K) : Prop :=
  ∀ i p q, t.polylines[i]? = some p → t.polylines[i + 1]? = some q →
    p.vertex p.polyline.lineCount = q.vertex 0

namespace Train

theorem getMercatorLine_eq {c : Cursor K} {p : PolylineRef K}
    (hp : t.polylines[c.polyline]? = some p) :
    t.getMercatorLine c = (do return (← p.vertex c.line, ← p.vertex (c.line + 1))) := by
  rw [getMercatorLine, hp, PolylineRef.vertex, PolylineRef.vertex]
  simp only [Option.bind_eq_bind, Option.bind_some]
  split
  · rfl
  · rfl

theorem exists_vertex {p : PolylineRef K} {k : ℕ} (hk : k ≤ p.polyline.lineCount)
    (hpos : 0 < p.polyline.lineCount) : ∃ a, p.vertex k = some a := by
  have hlen := p.polyline.length_lines
  rw [← Polyline.lineCount] at hlen
  rw [PolylineRef.vertex]
  split
  · exact ⟨_, List.getElem?_eq_getElem (by omega)⟩
  · exact ⟨_, List.getElem?_eq_getElem (by omega)⟩

/-- A cursor is drawn on its line. -/
theorem drawnAt_eq_mix {c : Cursor K} {p : PolylineRef K} {r : K} {a b : MercatorCoordinate K}
    (hp : t.polylines[c.polyline]? = some p) (ha : p.vertex c.line = some a)
    (hb : p.vertex (c.line + 1) = some b) (hr : c.progress = .number r) :
    t.drawnAt c = some (mix a b r) := by
  rw [drawnAt, getMercatorLine_eq hp, ha, hb]
  simp only [hr]
  rfl

/-- A line without length starts where it ends. -/
theorem eq_of_length_eq_zero {p : PolylineRef K} {k : ℕ} {a b : MercatorCoordinate K}
    (hk : k < p.polyline.lineCount) (ha : p.vertex k = some a) (hb : p.vertex (k + 1) = some b)
    (h : p.lineStart (k + 1) - p.lineStart k = 0) : a = b := by
  have hvertex := PolylineRef.vertex_succ hk (sub_eq_zero.mp h).symm
  rw [ha, hb] at hvertex
  exact Option.some.inj hvertex

variable [IsStrictOrderedRing K]

theorem vertex_eq_of_le {p : PolylineRef K} {k l : ℕ} (hkl : k ≤ l)
    (hl : l ≤ p.polyline.lineCount) (h : p.lineStart k = p.lineStart l) :
    p.vertex k = p.vertex l := by
  induction l, hkl using Nat.le_induction with
  | base => rfl
  | succ l hkl ih =>
    have hle := p.lineStart_mono hkl
    have hlast := p.lineStart_mono (Nat.le_succ l)
    have hk : p.lineStart k = p.lineStart l := le_antisymm hle (h ▸ hlast)
    rw [ih (by omega) hk]
    exact PolylineRef.vertex_succ (by omega) (hk ▸ h)

/-- Between polylines without length the map does not move. -/
theorem Drawable.vertex_zero_eq (h : t.Drawable) (hjoined : t.Joined) {i j : ℕ} (hij : i ≤ j)
    {p q : PolylineRef K} (hp : t.polylines[i]? = some p) (hq : t.polylines[j]? = some q)
    (heq : t.polylineStart i = t.polylineStart j) : p.vertex 0 = q.vertex 0 := by
  induction j, hij using Nat.le_induction generalizing q with
  | base =>
    rw [hp] at hq
    rw [Option.some.inj hq]
  | succ j hij ih =>
    have hj : j < t.polylines.length := by
      have hlt := (List.getElem?_eq_some_iff.mp hq).1
      omega
    have hr := List.getElem?_eq_getElem hj
    have hle := polylineStart_mono (t := t) hij
    have hlast := polylineStart_mono (t := t) (Nat.le_succ j)
    have hi : t.polylineStart i = t.polylineStart j := le_antisymm hle (heq ▸ hlast)
    rw [ih hr hi]
    have hzero : t.polylines[j].lineStart 0 =
        t.polylines[j].lineStart t.polylines[j].polyline.lineCount := by
      rw [h.lineStart_zero hr, h.lineStart_lineCount hr, ← hi, heq]
    rw [vertex_eq_of_le (Nat.zero_le _) (le_refl _) hzero]
    exact hjoined j _ q hr hq

/-- Two vertices at the same distance are the same on the map. -/
theorem Drawable.vertex_eq (h : t.Drawable) (hjoined : t.Joined) {i j k l : ℕ}
    {p q : PolylineRef K} (hp : t.polylines[i]? = some p) (hq : t.polylines[j]? = some q)
    (hk : k ≤ p.polyline.lineCount) (hl : l ≤ q.polyline.lineCount)
    (horder : i < j ∨ i = j ∧ k ≤ l) (heq : p.lineStart k = q.lineStart l) :
    p.vertex k = q.vertex l := by
  rcases horder with hij | ⟨rfl, hkl⟩
  · have hend := p.lineStart_mono hk
    rw [h.lineStart_lineCount hp] at hend
    have hbetween := polylineStart_mono (t := t) (Nat.succ_le_of_lt hij)
    have hstart := q.lineStart_mono (Nat.zero_le l)
    rw [h.lineStart_zero hq] at hstart
    -- everything in between has no length
    have hpk : p.lineStart k = p.lineStart p.polyline.lineCount := by
      rw [h.lineStart_lineCount hp]
      exact le_antisymm hend (by rw [heq]; exact le_trans hbetween hstart)
    have hql : q.lineStart 0 = q.lineStart l := by
      rw [h.lineStart_zero hq]
      exact le_antisymm hstart (by rw [← heq]; exact le_trans hend hbetween)
    have hi : i + 1 < t.polylines.length := by
      have hlt := (List.getElem?_eq_some_iff.mp hq).1
      omega
    have hr := List.getElem?_eq_getElem hi
    have hbetween' : t.polylineStart (i + 1) = t.polylineStart j := by
      refine le_antisymm hbetween ?_
      rw [← h.lineStart_zero hq, hql, ← heq]
      exact hend
    rw [vertex_eq_of_le hk (le_refl _) hpk, hjoined i p _ hp hr,
      h.vertex_zero_eq hjoined (Nat.succ_le_of_lt hij) hr hq hbetween',
      vertex_eq_of_le (Nat.zero_le l) hl hql]
  · obtain rfl : p = q := by
      rw [hp] at hq
      exact Option.some.inj hq
    exact vertex_eq_of_le hkl hl heq

/-- A cursor at the end of a line and one at the start of a later line are drawn at one point. -/
theorem Drawable.drawnAt_eq_of_lt (h : t.Drawable) (hjoined : t.Joined) {c c' : Cursor K} {x : K}
    (hpath : t.OnPath c.polyline c.line) (hpath' : t.OnPath c'.polyline c'.line)
    (hc : t.Denotes c x) (hc' : t.Denotes c' x)
    (horder : c.polyline < c'.polyline ∨ c.polyline = c'.polyline ∧ c.line < c'.line) :
    t.drawnAt c = t.drawnAt c' := by
  obtain ⟨p, hp, hk⟩ := hpath
  obtain ⟨q, hq, hl⟩ := hpath'
  obtain ⟨r, hr, hr0, hr1, hx⟩ := hc
  obtain ⟨r', hr', hr0', -, hx'⟩ := hc'
  rw [linePos_eq hp hk] at hx
  rw [linePos_eq hq hl] at hx'
  obtain ⟨a, ha⟩ := exists_vertex hk.le (Nat.zero_lt_of_lt hk)
  obtain ⟨b, hb⟩ := exists_vertex (Nat.succ_le_of_lt hk) (Nat.zero_lt_of_lt hk)
  obtain ⟨a', ha'⟩ := exists_vertex hl.le (Nat.zero_lt_of_lt hl)
  obtain ⟨b', hb'⟩ := exists_vertex (Nat.succ_le_of_lt hl) (Nat.zero_lt_of_lt hl)
  have hle : p.lineStart (c.line + 1) ≤ q.lineStart c'.line := by
    rcases horder with hij | ⟨hij, hkl⟩
    · have hend := p.lineStart_mono (Nat.succ_le_of_lt hk)
      have hstart := q.lineStart_mono (Nat.zero_le c'.line)
      rw [h.lineStart_lineCount hp] at hend
      rw [h.lineStart_zero hq] at hstart
      exact le_trans hend (le_trans (polylineStart_mono (Nat.succ_le_of_lt hij)) hstart)
    · rw [hij, hq] at hp
      rw [Option.some.inj hp]
      exact p.lineStart_mono (Nat.succ_le_of_lt hkl)
  -- the distance is that of the end of the one and of the start of the other
  have hlen := sub_nonneg.mpr (p.lineStart_mono (Nat.le_succ c.line))
  have hlen' := sub_nonneg.mpr (q.lineStart_mono (Nat.le_succ c'.line))
  have hrle := mul_le_of_le_one_left hlen hr1
  have hrnonneg := mul_nonneg hr0' hlen'
  have hend : r * (p.lineStart (c.line + 1) - p.lineStart c.line) =
      p.lineStart (c.line + 1) - p.lineStart c.line := by
    linarith only [hx, hx', hle, hrle, hrnonneg]
  have hstart : r' * (q.lineStart (c'.line + 1) - q.lineStart c'.line) = 0 := by
    linarith only [hx, hx', hle, hrle, hrnonneg]
  have hvertex := h.vertex_eq hjoined hp hq (Nat.succ_le_of_lt hk) hl.le
    (horder.imp_right fun ⟨hij, hkl⟩ => ⟨hij, Nat.succ_le_of_lt hkl⟩)
    (by linarith only [hx, hx', hend, hstart])
  rw [hb, ha', Option.some.injEq] at hvertex
  rw [drawnAt_eq_mix hp ha hb hr, drawnAt_eq_mix hq ha' hb' hr',
    mix_end hend (eq_of_length_eq_zero hk ha hb), hvertex,
    mix_start hstart (eq_of_length_eq_zero hl ha' hb')]

/-- Cursors that denote the same distance are drawn at the same point. -/
theorem Drawable.drawnAt_eq (h : t.Drawable) (hjoined : t.Joined) {c c' : Cursor K} {x : K}
    (hpath : t.OnPath c.polyline c.line) (hpath' : t.OnPath c'.polyline c'.line)
    (hc : t.Denotes c x) (hc' : t.Denotes c' x) : t.drawnAt c = t.drawnAt c' := by
  rcases Nat.lt_trichotomy c.polyline c'.polyline with hij | hij | hij
  · exact h.drawnAt_eq_of_lt hjoined hpath hpath' hc hc' (Or.inl hij)
  · rcases Nat.lt_trichotomy c.line c'.line with hkl | hkl | hkl
    · exact h.drawnAt_eq_of_lt hjoined hpath hpath' hc hc' (Or.inr ⟨hij, hkl⟩)
    · -- on the same line: it has no length, or the progress is the same
      obtain ⟨p, hp, hk⟩ := hpath
      obtain ⟨r, hr, -, -, hx⟩ := hc
      obtain ⟨r', hr', -, -, hx'⟩ := hc'
      obtain ⟨a, ha⟩ := exists_vertex hk.le (Nat.zero_lt_of_lt hk)
      obtain ⟨b, hb⟩ := exists_vertex (Nat.succ_le_of_lt hk) (Nat.zero_lt_of_lt hk)
      rw [← hij, ← hkl, linePos_eq hp hk] at hx'
      rw [linePos_eq hp hk] at hx
      rw [drawnAt_eq_mix hp ha hb hr,
        drawnAt_eq_mix (hij ▸ hp) (hkl ▸ ha) (by rw [← hkl]; exact hb) hr']
      rcases eq_or_ne (p.lineStart (c.line + 1) - p.lineStart c.line) 0 with hzero | hne
      · rw [mix_start (by rw [hzero, mul_zero]) (eq_of_length_eq_zero hk ha hb),
          mix_start (by rw [hzero, mul_zero]) (eq_of_length_eq_zero hk ha hb)]
      · rw [mul_right_cancel₀ hne (by linarith : r * _ = r' * _)]
    · exact (h.drawnAt_eq_of_lt hjoined hpath' hpath hc' hc (Or.inr ⟨hij.symm, hkl⟩)).symm
  · exact (h.drawnAt_eq_of_lt hjoined hpath' hpath hc' hc (Or.inl hij)).symm

end Train

end Points

end Motis.Ui.RailViz
