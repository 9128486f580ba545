import Mathlib.Algebra.BigOperators.Ring.Finset
import Mathlib.Algebra.BigOperators.Ring.List
import Mathlib.Algebra.Order.BigOperators.Group.List
import Mathlib.Tactic.Linarith
import Mathlib.Tactic.Ring
import Motis.Lib.JsNumber
import Motis.Lib.JsString

/-! The graph of the transports of a journey.

    The parts share the width by their durations, but none gets less than its minimal width:

        durations   5    40         15            available ──────────────────────┤
        ideal       ├─┤──────────────┤─────┤
        final       ├────┤──────────┤─────┤       too small ones first, then the others again

    A name makes a part wider; when the parts do not fit, they are tried without names. A call that
    does not return has no result for any amount of fuel. -/

namespace Motis.Ui.JourneyTransportGraph
open JsNumber

def circleRadius : ℤ := 12

def basePartSize : ℤ := circleRadius * 2

def destinationRadius : ℤ := 6

/-- A train or a walk, as far as the layout reads it. -/
structure Part where
  duration : ℤ
  longName : String
  deriving DecidableEq, Repr

inductive NameDisplayType where | longName | noName
  deriving DecidableEq, Repr

structure DisplayPart where
  part : Part
  position : JsNumber
  barLength : JsNumber
  nameDisplayType : NameDisplayType
  deriving DecidableEq, Repr

structure LayoutPart where
  part : Part
  minWidth : ℚ
  idealWidth : JsNumber
  finalWidth : JsNumber
  deriving DecidableEq, Repr

def isNotFinal (part : LayoutPart) : Bool := part.finalWidth = 0

/-- `List.Extra.updateIf` -/
def updateIf {α : Type} (pred : α → Bool) (f : α → α) (list : List α) : List α :=
  list.map fun a => if pred a then f a else a

section Widths

variable (totalAvailableWidth : ℚ) (parts : List LayoutPart)

def remainingDuration : ℤ := ((parts.filter isNotFinal).map (·.part.duration)).sum

def finalPartsWidth : JsNumber := (parts.map (·.finalWidth)).sum

def availableWidth : JsNumber := finite totalAvailableWidth - finalPartsWidth parts

def getIdealWidth (part : LayoutPart) : JsNumber :=
  finite part.part.duration / finite (remainingDuration parts) *
    availableWidth totalAvailableWidth parts

def idealParts : List LayoutPart :=
  updateIf isNotFinal (fun p => { p with idealWidth := getIdealWidth totalAvailableWidth parts p })
    parts

def finalizedParts : List LayoutPart :=
  updateIf (fun p => isNotFinal p && (finite p.minWidth).ge p.idealWidth)
    (fun p => { p with finalWidth := finite p.minWidth }) (idealParts totalAvailableWidth parts)

end Widths

/-- Elements that are not updated stay the same objects, so they are equal also with `NaN`. -/
def calcFinalPartWidths : ℕ → ℚ → List LayoutPart → Option (List LayoutPart)
  | 0, _, _ => none
  | fuel + 1, totalAvailableWidth, parts =>
    let finalized := finalizedParts totalAvailableWidth parts
    if idealParts totalAvailableWidth parts = finalized then
      some (updateIf isNotFinal (fun p => { p with finalWidth := p.idealWidth }) finalized)
    else calcFinalPartWidths fuel totalAvailableWidth finalized

def baseBarLength : ℤ := 2

def avgCharWidth : ℤ := 7

def getMinLength (nameDisplayType : NameDisplayType) (part : Part) : ℤ :=
  match nameDisplayType with
  | .longName => max (basePartSize + baseBarLength) (avgCharWidth * JsString.length part.longName)
  | .noName => basePartSize + baseBarLength

def initialLayoutPart (nameDisplayType : NameDisplayType) (part : Part) : LayoutPart where
  part := part
  minWidth := getMinLength nameDisplayType part
  idealWidth := 0
  finalWidth := 0

def calcPartWidths : ℕ → ℤ → NameDisplayType → List Part →
    Option (List LayoutPart × NameDisplayType)
  | 0, _, _, _ => none
  | fuel + 1, availableWidth, nameDisplayType, parts =>
    let initialLayoutParts := parts.map (initialLayoutPart nameDisplayType)
    let minRequiredSpace : ℚ := (initialLayoutParts.map (·.minWidth)).sum
    if minRequiredSpace ≤ availableWidth then do
      let parts ← calcFinalPartWidths fuel availableWidth initialLayoutParts
      return (parts, nameDisplayType)
    else calcPartWidths fuel availableWidth .noName parts

/-- The fold of `setPosition`. -/
def setPositions (nameDisplayType : NameDisplayType) :
    JsNumber → List LayoutPart → List DisplayPart
  | _, [] => []
  | pos, lp :: lps =>
    let displayPart := {
      part := lp.part
      position := pos
      barLength := lp.finalWidth - finite basePartSize
      nameDisplayType }
    displayPart ::
      setPositions nameDisplayType (pos + finite basePartSize + displayPart.barLength) lps

def layoutParts (fuel : ℕ) (totalWidth : ℤ) (desiredNameDisplayType : NameDisplayType)
    (parts : List Part) : Option (List DisplayPart) := do
  let destinationWidth := destinationRadius * 2
  let (parts, nameDisplayType) ←
    calcPartWidths fuel (totalWidth - destinationWidth) desiredNameDisplayType parts
  return setPositions nameDisplayType 0 parts

/-! ### What a layout is -/

/-- The parts follow each other from `start` to `stop`, none smaller than the fixed size. -/
def Placed (start : ℚ) : List DisplayPart → ℚ → Prop
  | [], stop => start = stop
  | p :: ps, stop => p.position = finite start ∧
      ∃ width : ℚ, basePartSize ≤ width ∧ finite basePartSize + p.barLength = finite width ∧
        Placed (start + width) ps stop

/-- All parts are placed in order, and the last one ends before the destination. -/
def LaidOut (totalWidth : ℤ) (parts : List Part) (displayParts : List DisplayPart) : Prop :=
  displayParts.map (·.part) = parts ∧
    ∃ stop : ℚ, Placed 0 displayParts stop ∧ stop ≤ totalWidth - 2 * destinationRadius

/-! ### Widths -/

section Sums

variable {α : Type}

theorem sum_filter (q : α → Bool) (f : α → ℚ) (l : List α) :
    (l.map fun a => if q a then f a else 0).sum = ((l.filter q).map f).sum := by
  induction l with
  | nil => rfl
  | cons a l ih =>
    rw [List.map_cons, List.sum_cons, ih]
    cases hq : q a with
    | true => rw [List.filter_cons_of_pos hq, List.map_cons, List.sum_cons, if_pos rfl]
    | false => rw [List.filter_cons_of_neg (by simp [hq]), if_neg Bool.false_ne_true, zero_add]

/-- What balances a sum of zero. -/
theorem exists_neg_pos_of_sum {f : α → ℤ} {l : List α} (hsum : (l.map f).sum = 0)
    (hne : ∃ a ∈ l, f a ≠ 0) : (∃ a ∈ l, f a < 0) ∧ ∃ a ∈ l, 0 < f a := by
  obtain ⟨a, ha, hfa⟩ := hne
  constructor
  · by_contra hcontra
    push Not at hcontra
    have hlt := List.sum_lt_sum (fun _ => (0 : ℤ)) f hcontra
      ⟨a, ha, lt_of_le_of_ne (hcontra a ha) hfa.symm⟩
    simp [hsum] at hlt
  · by_contra hcontra
    push Not at hcontra
    have hlt := List.sum_lt_sum f (fun _ => (0 : ℤ)) hcontra
      ⟨a, ha, lt_of_le_of_ne (hcontra a ha) hfa⟩
    simp [hsum] at hlt

end Sums

/-- What the rounds keep: a final part has its minimal width, and all minimal widths fit. -/
structure Sound (totalAvailableWidth : ℚ) (parts : List LayoutPart) : Prop where
  base_le : ∀ p ∈ parts, 26 ≤ p.minWidth
  final : ∀ p ∈ parts, isNotFinal p = false → p.finalWidth = finite p.minWidth
  fits : (parts.map (·.minWidth)).sum ≤ totalAvailableWidth

/-- The parts that are not final are not all without duration. -/
def Timed (parts : List LayoutPart) : Prop :=
  (∃ p ∈ parts, isNotFinal p = true) → ∃ p ∈ parts, isNotFinal p = true ∧ p.part.duration ≠ 0

section Round

variable {total : ℚ} {parts : List LayoutPart}

/-- The width a part has so far. -/
def width (p : LayoutPart) : ℚ := if isNotFinal p then 0 else p.minWidth

/-- What is left for the others. -/
def left (total : ℚ) (parts : List LayoutPart) : ℚ := total - (parts.map width).sum

/-- A part that is made final in this round. -/
def tight (total : ℚ) (parts : List LayoutPart) (p : LayoutPart) : Bool :=
  isNotFinal p && (finite p.minWidth).ge (getIdealWidth total parts p)

theorem finalWidth_eq (h : Sound total parts) {p : LayoutPart} (hp : p ∈ parts) :
    p.finalWidth = finite (width p) := by
  rw [width]
  cases hfinal : isNotFinal p with
  | true => exact of_decide_eq_true hfinal
  | false => exact h.final p hp hfinal

theorem availableWidth_eq (h : Sound total parts) :
    availableWidth total parts = finite (left total parts) := by
  rw [availableWidth, finalPartsWidth, List.map_congr_left fun p hp => finalWidth_eq h hp,
    sum_finite, finite_sub, left]

/-- There is something left while a part is not final. -/
theorem left_pos (h : Sound total parts) {p : LayoutPart} (hp : p ∈ parts)
    (hfinal : isNotFinal p = true) : 0 < left total parts := by
  have hlt := List.sum_lt_sum width (·.minWidth) (l := parts) (fun q hq => ?_) ⟨p, hp, ?_⟩
  · have hfits := h.fits
    rw [left]
    linarith
  · have hbase := h.base_le q hq
    rw [width]
    split_ifs
    · linarith
    · exact le_rfl
  · have hbase := h.base_le p hp
    rw [width, if_pos hfinal]
    linarith

/-- What a round does to a part. -/
def round (total : ℚ) (parts : List LayoutPart) (p : LayoutPart) : LayoutPart :=
  if isNotFinal p then
    if tight total parts p then
      { p with idealWidth := getIdealWidth total parts p, finalWidth := finite p.minWidth }
    else { p with idealWidth := getIdealWidth total parts p }
  else p

theorem finalizedParts_eq : finalizedParts total parts = parts.map (round total parts) := by
  rw [finalizedParts, idealParts, updateIf, updateIf, List.map_map]
  refine List.map_congr_left fun p hp => ?_
  rw [round]
  cases hfinal : isNotFinal p with
  | true =>
    have hsame : isNotFinal { p with idealWidth := getIdealWidth total parts p } = true := hfinal
    simp [hfinal, hsame, tight]
  | false => simp [hfinal]

@[simp] theorem part_round (p : LayoutPart) : (round total parts p).part = p.part := by
  rw [round]
  split_ifs <;> rfl

@[simp] theorem minWidth_round (p : LayoutPart) :
    (round total parts p).minWidth = p.minWidth := by
  rw [round]
  split_ifs <;> rfl

theorem round_of_tight {p : LayoutPart} (h : tight total parts p = true) :
    (round total parts p).finalWidth = finite p.minWidth := by
  have hfinal : isNotFinal p = true := (Bool.and_eq_true_iff.mp h).1
  rw [round, if_pos hfinal, if_pos h]

theorem round_of_loose {p : LayoutPart} (h : tight total parts p = false) :
    (round total parts p).finalWidth = p.finalWidth ∧ (isNotFinal p = true →
      (round total parts p).idealWidth = getIdealWidth total parts p) := by
  rw [round, h]
  cases isNotFinal p with
  | true => exact ⟨rfl, fun _ => rfl⟩
  | false => exact ⟨rfl, nofun⟩

theorem isNotFinal_round (h : Sound total parts) {p : LayoutPart} (hp : p ∈ parts) :
    isNotFinal (round total parts p) = (isNotFinal p && !tight total parts p) := by
  cases htight : tight total parts p with
  | true =>
    have hbase := h.base_le p hp
    rw [isNotFinal, round_of_tight htight, Bool.not_true, Bool.and_false, decide_eq_false_iff_not]
    intro hzero
    have hmin : p.minWidth = 0 := JsNumber.finite.inj hzero
    linarith
  | false =>
    rw [Bool.not_false, Bool.and_true, isNotFinal, isNotFinal, (round_of_loose htight).1]

/-- The rounds are done when no part is made final. -/
theorem done_iff (h : Sound total parts) :
    idealParts total parts = finalizedParts total parts ↔
      ∀ p ∈ parts, tight total parts p = false := by
  rw [finalizedParts_eq, idealParts, updateIf, List.map_inj_left]
  refine forall₂_congr fun p hp => ?_
  cases htight : tight total parts p with
  | false => simp [round, htight]
  | true =>
    have hfinal : isNotFinal p = true := (Bool.and_eq_true_iff.mp htight).1
    have hbase := h.base_le p hp
    have hzero : p.finalWidth = finite 0 := of_decide_eq_true hfinal
    refine iff_of_false (fun heq => ?_) Bool.noConfusion
    have hwidth := congrArg LayoutPart.finalWidth heq
    rw [round_of_tight htight, if_pos hfinal, hzero] at hwidth
    have hmin : 0 = p.minWidth := JsNumber.finite.inj hwidth
    linarith

/-! ### Shares -/

theorem getIdealWidth_eq (h : Sound total parts) (hrem : remainingDuration parts ≠ 0)
    (p : LayoutPart) : getIdealWidth total parts p =
      finite (p.part.duration / remainingDuration parts * left total parts) := by
  rw [getIdealWidth, availableWidth_eq h, finite_div (Int.cast_ne_zero.mpr hrem), finite_mul]

theorem getIdealWidth_zero (h : Sound total parts) (hrem : remainingDuration parts = 0)
    (hleft : 0 < left total parts) {p : LayoutPart} (hd : p.part.duration ≠ 0) :
    getIdealWidth total parts p = infinity (p.part.duration < 0) := by
  rw [getIdealWidth, availableWidth_eq h, hrem, Int.cast_zero,
    div_zero_mul (Int.cast_ne_zero.mpr hd) hleft]
  simp

theorem getIdealWidth_nan (hrem : remainingDuration parts = 0) {p : LayoutPart}
    (hd : p.part.duration = 0) : getIdealWidth total parts p = nan := by
  rw [getIdealWidth, hrem, hd, Int.cast_zero, zero_div_zero, nan_mul]

/-- A part without duration is tight when others have one. -/
theorem tight_of_duration_zero (h : Sound total parts) (hrem : remainingDuration parts ≠ 0)
    {p : LayoutPart} (hp : p ∈ parts) (hfinal : isNotFinal p = true) (hd : p.part.duration = 0) :
    tight total parts p = true := by
  have hbase := h.base_le p hp
  rw [tight, hfinal, getIdealWidth_eq h hrem, hd, Bool.true_and, Int.cast_zero, zero_div, zero_mul]
  exact decide_eq_true (by linarith)

theorem tight_iff_neg (h : Sound total parts) (hrem : remainingDuration parts = 0)
    {p : LayoutPart} (hp : p ∈ parts) (hfinal : isNotFinal p = true) (hd : p.part.duration ≠ 0) :
    tight total parts p = decide (p.part.duration < 0) := by
  rw [tight, hfinal, getIdealWidth_zero h hrem (left_pos h hp hfinal) hd, Bool.true_and]
  rfl

/-- Durations that add up to nothing are not all on one side. -/
theorem exists_sides (hrem : remainingDuration parts = 0)
    (htimed : ∃ p ∈ parts, isNotFinal p = true ∧ p.part.duration ≠ 0) :
    (∃ p ∈ parts, isNotFinal p = true ∧ p.part.duration < 0) ∧
      ∃ p ∈ parts, isNotFinal p = true ∧ 0 < p.part.duration := by
  obtain ⟨p, hp, hfinal, hd⟩ := htimed
  obtain ⟨⟨n, hn, hneg⟩, q, hq, hpos⟩ :=
    exists_neg_pos_of_sum hrem ⟨p, List.mem_filter.mpr ⟨hp, hfinal⟩, hd⟩
  obtain ⟨hn, hnfinal⟩ := List.mem_filter.mp hn
  obtain ⟨hq, hqfinal⟩ := List.mem_filter.mp hq
  exact ⟨⟨n, hn, hnfinal, hneg⟩, q, hq, hqfinal, hpos⟩

/-! ### Rounds -/

theorem sound_finalizedParts (h : Sound total parts) :
    Sound total (finalizedParts total parts) := by
  rw [finalizedParts_eq]
  refine ⟨?_, ?_, ?_⟩
  · intro q hq
    obtain ⟨p, hp, rfl⟩ := List.mem_map.mp hq
    rw [minWidth_round]
    exact h.base_le p hp
  · intro q hq hfinal
    obtain ⟨p, hp, rfl⟩ := List.mem_map.mp hq
    rw [isNotFinal_round h hp] at hfinal
    rw [minWidth_round]
    cases htight : tight total parts p with
    | true => exact round_of_tight htight
    | false =>
      rw [htight, Bool.not_false, Bool.and_true] at hfinal
      rw [(round_of_loose htight).1]
      exact h.final p hp hfinal
  · rw [List.map_map]
    refine le_of_eq_of_le ?_ h.fits
    exact congrArg List.sum (List.map_congr_left fun p _ => minWidth_round p)

/-- A part with a duration stays, or all parts become final. -/
theorem timed_finalizedParts (h : Sound total parts) (htimed : Timed parts) :
    Timed (finalizedParts total parts) := by
  rw [finalizedParts_eq]
  rintro ⟨q, hq, hqfinal⟩
  obtain ⟨p, hp, rfl⟩ := List.mem_map.mp hq
  rw [isNotFinal_round h hp] at hqfinal
  obtain ⟨hpfinal, hloose⟩ := Bool.and_eq_true_iff.mp hqfinal
  by_cases hrem : remainingDuration parts = 0
  · obtain ⟨-, r, hr, hrfinal, hpos⟩ := exists_sides hrem (htimed ⟨p, hp, hpfinal⟩)
    refine ⟨_, List.mem_map_of_mem hr, ?_, by rw [part_round]; exact hpos.ne'⟩
    rw [isNotFinal_round h hr, hrfinal, tight_iff_neg h hrem hr hrfinal hpos.ne',
      decide_eq_false (not_lt.mpr hpos.le)]
    rfl
  · refine ⟨_, List.mem_map_of_mem hp, ?_, ?_⟩
    · rw [isNotFinal_round h hp]
      exact hqfinal
    · rw [part_round]
      intro hd
      rw [tight_of_duration_zero h hrem hp hpfinal hd] at hloose
      cases hloose

/-- The number of parts that are not final. -/
def notFinalCount (parts : List LayoutPart) : ℕ :=
  (parts.map fun p => if isNotFinal p then 1 else 0).sum

theorem notFinalCount_lt (h : Sound total parts) {p : LayoutPart} (hp : p ∈ parts)
    (htight : tight total parts p = true) :
    notFinalCount (finalizedParts total parts) < notFinalCount parts := by
  rw [finalizedParts_eq, notFinalCount, notFinalCount, List.map_map]
  refine List.sum_lt_sum _ _ (fun q hq => ?_) ⟨p, hp, ?_⟩
  · rw [Function.comp_apply, isNotFinal_round h hq]
    cases isNotFinal q <;> cases tight total parts q <;> decide
  · have hfinal : isNotFinal p = true := (Bool.and_eq_true_iff.mp htight).1
    rw [Function.comp_apply, isNotFinal_round h hp, htight, hfinal]
    decide

/-- The widths of a layout: none too small, all within the space. -/
structure Shared (total : ℚ) (parts widths : List LayoutPart) (shares : List ℚ) : Prop where
  part_eq : widths.map (·.part) = parts.map (·.part)
  finalWidth_eq : widths.map (·.finalWidth) = shares.map finite
  base_le : ∀ w ∈ shares, (basePartSize : ℚ) ≤ w
  sum_le : shares.sum ≤ total

/-- The share of a part when the rounds are done. -/
def share (total : ℚ) (parts : List LayoutPart) (p : LayoutPart) : ℚ :=
  if isNotFinal p then p.part.duration / remainingDuration parts * left total parts else p.minWidth

/-- When the rounds are done, the others have durations that do not cancel. -/
theorem remainingDuration_ne_zero (h : Sound total parts) (htimed : Timed parts)
    (hdone : ∀ p ∈ parts, tight total parts p = false) {p : LayoutPart} (hp : p ∈ parts)
    (hfinal : isNotFinal p = true) : remainingDuration parts ≠ 0 := by
  intro hrem
  obtain ⟨⟨q, hq, hqfinal, hneg⟩, -⟩ := exists_sides hrem (htimed ⟨p, hp, hfinal⟩)
  have hloose := hdone q hq
  rw [tight_iff_neg h hrem hq hqfinal hneg.ne, decide_eq_true hneg] at hloose
  cases hloose

theorem base_le_share (h : Sound total parts) (htimed : Timed parts)
    (hdone : ∀ p ∈ parts, tight total parts p = false) {p : LayoutPart} (hp : p ∈ parts) :
    (basePartSize : ℚ) ≤ share total parts p := by
  have hbase := h.base_le p hp
  have hsize : (basePartSize : ℚ) = 24 := by norm_num [basePartSize, circleRadius]
  rw [share, hsize]
  cases hfinal : isNotFinal p with
  | false =>
    rw [if_neg Bool.false_ne_true]
    linarith
  | true =>
    have hrem := remainingDuration_ne_zero h htimed hdone hp hfinal
    have hloose := hdone p hp
    rw [tight, hfinal, getIdealWidth_eq h hrem, Bool.true_and] at hloose
    have hlt := not_le.mp (of_decide_eq_false hloose)
    rw [if_pos rfl]
    linarith

theorem sum_share_le (h : Sound total parts) (htimed : Timed parts)
    (hdone : ∀ p ∈ parts, tight total parts p = false) :
    (parts.map (share total parts)).sum ≤ total := by
  by_cases hany : ∃ p ∈ parts, isNotFinal p = true
  · obtain ⟨p, hp, hfinal⟩ := hany
    have hrem : (remainingDuration parts : ℚ) ≠ 0 :=
      Int.cast_ne_zero.mpr (remainingDuration_ne_zero h htimed hdone hp hfinal)
    have hsplit : (parts.map (share total parts)).sum = (parts.map width).sum +
        (parts.map fun p => if isNotFinal p then
          p.part.duration * (left total parts / remainingDuration parts) else 0).sum := by
      rw [← List.sum_map_add]
      refine congrArg List.sum (List.map_congr_left fun q _ => ?_)
      rw [share, width]
      split_ifs
      · ring
      · ring
    have hshares : ((parts.filter isNotFinal).map fun p =>
        (p.part.duration : ℚ) * (left total parts / remainingDuration parts)).sum =
          left total parts := by
      rw [List.sum_map_mul_right]
      have hcast : ((parts.filter isNotFinal).map fun p => (p.part.duration : ℚ)).sum =
          remainingDuration parts := by
        rw [remainingDuration, Int.cast_list_sum, List.map_map]
        rfl
      rw [hcast, mul_div_cancel₀ _ hrem]
    rw [hsplit, sum_filter, hshares, left]
    linarith
  · push Not at hany
    refine le_of_eq_of_le (congrArg List.sum (List.map_congr_left fun p hp => ?_)) h.fits
    rw [share, if_neg (hany p hp)]

theorem shared_of_done (h : Sound total parts) (htimed : Timed parts)
    (hdone : ∀ p ∈ parts, tight total parts p = false) :
    Shared total parts (updateIf isNotFinal (fun p => { p with finalWidth := p.idealWidth })
      (finalizedParts total parts)) (parts.map (share total parts)) := by
  refine ⟨?_, ?_, ?_, sum_share_le h htimed hdone⟩
  · rw [finalizedParts_eq, updateIf, List.map_map, List.map_map]
    refine List.map_congr_left fun p _ => ?_
    have hround : (round total parts p).part = p.part := part_round p
    rw [Function.comp_apply, Function.comp_apply, ← hround]
    split_ifs <;> rfl
  · rw [finalizedParts_eq, updateIf, List.map_map, List.map_map, List.map_map]
    refine List.map_congr_left fun p hp => ?_
    have hloose := hdone p hp
    rw [Function.comp_apply, Function.comp_apply, Function.comp_apply, isNotFinal_round h hp, hloose,
      share]
    cases hfinal : isNotFinal p with
    | true =>
      have hrem := remainingDuration_ne_zero h htimed hdone hp hfinal
      exact ((round_of_loose hloose).2 hfinal).trans (getIdealWidth_eq h hrem p)
    | false => exact (round_of_loose hloose).1.trans (h.final p hp hfinal)
  · intro w hw
    obtain ⟨p, hp, rfl⟩ := List.mem_map.mp hw
    exact base_le_share h htimed hdone hp

/-- With a round for each part the widths are final. -/
theorem calcFinalPartWidths_spec {fuel : ℕ} (h : Sound total parts) (htimed : Timed parts)
    (hfuel : notFinalCount parts < fuel) :
    ∃ widths shares, calcFinalPartWidths fuel total parts = some widths ∧
      Shared total parts widths shares := by
  induction fuel generalizing parts with
  | zero => omega
  | succ fuel ih =>
    rw [calcFinalPartWidths]
    by_cases hdone : ∀ p ∈ parts, tight total parts p = false
    · rw [if_pos ((done_iff h).mpr hdone)]
      exact ⟨_, _, rfl, shared_of_done h htimed hdone⟩
    · rw [if_neg (mt (done_iff h).mp hdone)]
      push Not at hdone
      obtain ⟨p, hp, htight⟩ := hdone
      have hlt := notFinalCount_lt h hp (Bool.not_eq_false _ ▸ htight)
      obtain ⟨widths, shares, hwidths, hshared⟩ :=
        ih (sound_finalizedParts h) (timed_finalizedParts h htimed) (by omega)
      refine ⟨widths, shares, hwidths, { hshared with part_eq := hshared.part_eq.trans ?_ }⟩
      rw [finalizedParts_eq, List.map_map]
      exact List.map_congr_left fun p _ => part_round p

end Round

/-! ### Layouts -/

theorem base_le_getMinLength (nameDisplayType : NameDisplayType) (part : Part) :
    26 ≤ getMinLength nameDisplayType part := by
  cases nameDisplayType with
  | longName => exact le_max_left _ _
  | noName => exact le_rfl

section Start

variable {parts : List Part} {nameDisplayType : NameDisplayType} {available : ℤ}

/-- The space that the parts need at least. -/
def minRequiredSpace (nameDisplayType : NameDisplayType) (parts : List Part) : ℚ :=
  ((parts.map (initialLayoutPart nameDisplayType)).map (·.minWidth)).sum

theorem minRequiredSpace_noName : minRequiredSpace .noName parts = 26 * parts.length := by
  induction parts with
  | nil => simp [minRequiredSpace]
  | cons p ps ih =>
    rw [minRequiredSpace] at ih
    rw [minRequiredSpace, List.map_cons, List.map_cons, List.sum_cons, ih, List.length_cons]
    simp [initialLayoutPart, getMinLength, basePartSize, circleRadius, baseBarLength]
    ring

theorem noName_le_minRequiredSpace :
    (26 * parts.length : ℚ) ≤ minRequiredSpace nameDisplayType parts := by
  rw [← minRequiredSpace_noName, minRequiredSpace, minRequiredSpace, List.map_map, List.map_map]
  refine List.sum_le_sum fun p _ => ?_
  exact Int.cast_le.mpr (base_le_getMinLength nameDisplayType p)

theorem sound_initial (h : minRequiredSpace nameDisplayType parts ≤ available) :
    Sound available (parts.map (initialLayoutPart nameDisplayType)) := by
  refine ⟨fun q hq => ?_, fun q hq hfinal => ?_, h⟩
  · obtain ⟨p, -, rfl⟩ := List.mem_map.mp hq
    have hbase : ((26 : ℤ) : ℚ) ≤ (getMinLength nameDisplayType p : ℤ) :=
      Int.cast_le.mpr (base_le_getMinLength nameDisplayType p)
    exact le_of_eq_of_le (Int.cast_ofNat 26).symm hbase
  · obtain ⟨p, -, rfl⟩ := List.mem_map.mp hq
    cases hfinal

theorem timed_initial (h : ∃ p ∈ parts, p.duration ≠ 0) :
    Timed (parts.map (initialLayoutPart nameDisplayType)) := by
  obtain ⟨p, hp, hd⟩ := h
  exact fun _ => ⟨_, List.mem_map_of_mem hp, rfl, hd⟩

variable (nameDisplayType) in
/-- Parts without names that do not fit are tried forever. -/
theorem calcPartWidths_eq_none (h : (available : ℚ) < 26 * parts.length) (fuel : ℕ) :
    calcPartWidths fuel available nameDisplayType parts = none := by
  induction fuel generalizing nameDisplayType with
  | zero => rfl
  | succ fuel ih =>
    have hspace : ¬ minRequiredSpace nameDisplayType parts ≤ available :=
      not_le.mpr (h.trans_le noName_le_minRequiredSpace)
    rw [calcPartWidths]
    exact (if_neg hspace).trans (ih .noName)

theorem calcPartWidths_of_fits {fuel : ℕ} (h : minRequiredSpace nameDisplayType parts ≤ available) :
    calcPartWidths (fuel + 1) available nameDisplayType parts =
      (calcFinalPartWidths fuel available (parts.map (initialLayoutPart nameDisplayType))).map
        fun widths => (widths, nameDisplayType) := by
  rw [calcPartWidths]
  refine (if_pos h).trans ?_
  cases calcFinalPartWidths fuel available (parts.map (initialLayoutPart nameDisplayType)) <;> rfl

theorem calcPartWidths_of_not_fits {fuel : ℕ}
    (h : ¬ minRequiredSpace nameDisplayType parts ≤ available) :
    calcPartWidths (fuel + 1) available nameDisplayType parts =
      calcPartWidths fuel available .noName parts := by
  rw [calcPartWidths]
  exact if_neg h

theorem notFinalCount_initial :
    notFinalCount (parts.map (initialLayoutPart nameDisplayType)) = parts.length := by
  rw [notFinalCount, List.map_map]
  exact (congrArg List.sum (List.map_const' ..)).trans
    ((List.sum_replicate ..).trans (Nat.mul_one _))

variable (nameDisplayType) in
/-- Parts that fit get their widths. -/
theorem calcPartWidths_spec_of_fits {fuel : ℕ}
    (h : minRequiredSpace nameDisplayType parts ≤ available)
    (hd : parts = [] ∨ ∃ p ∈ parts, p.duration ≠ 0) (hfuel : parts.length < fuel) :
    ∃ widths shares, calcPartWidths (fuel + 1) available nameDisplayType parts =
      some (widths, nameDisplayType) ∧
        Shared available (parts.map (initialLayoutPart nameDisplayType)) widths shares := by
  have htimed : Timed (parts.map (initialLayoutPart nameDisplayType)) := by
    rcases hd with rfl | hd
    · rintro ⟨p, hp, -⟩
      cases hp
    · exact timed_initial hd
  obtain ⟨widths, shares, hwidths, hshared⟩ :=
    calcFinalPartWidths_spec (sound_initial h) htimed (notFinalCount_initial.trans_lt hfuel)
  refine ⟨widths, shares, ?_, hshared⟩
  rw [calcPartWidths_of_fits h, hwidths]
  rfl

theorem part_initial :
    (parts.map (initialLayoutPart nameDisplayType)).map (·.part) = parts := by
  rw [List.map_map]
  exact List.map_id parts

variable (nameDisplayType) in
/-- With names or without them. -/
theorem calcPartWidths_spec (h : (26 * parts.length : ℚ) ≤ available)
    (hd : parts = [] ∨ ∃ p ∈ parts, p.duration ≠ 0) :
    ∃ fuel widths used, ∃ shares : List ℚ, calcPartWidths fuel available nameDisplayType parts =
      some (widths, used) ∧ widths.map (·.part) = parts ∧
        widths.map (·.finalWidth) = shares.map finite ∧
        (∀ w ∈ shares, (basePartSize : ℚ) ≤ w) ∧ shares.sum ≤ available := by
  by_cases hfits : minRequiredSpace nameDisplayType parts ≤ available
  · obtain ⟨widths, shares, hwidths, hshared⟩ :=
      calcPartWidths_spec_of_fits _ hfits hd (Nat.lt_succ_self _)
    exact ⟨_, widths, _, shares, hwidths, hshared.part_eq.trans part_initial,
      hshared.finalWidth_eq, hshared.base_le, hshared.sum_le⟩
  · obtain ⟨widths, shares, hwidths, hshared⟩ := calcPartWidths_spec_of_fits .noName
      (minRequiredSpace_noName.trans_le h) hd (Nat.lt_succ_self _)
    exact ⟨_, widths, _, shares, (calcPartWidths_of_not_fits hfits).trans hwidths,
      hshared.part_eq.trans part_initial, hshared.finalWidth_eq, hshared.base_le, hshared.sum_le⟩

end Start

theorem part_setPositions (nameDisplayType : NameDisplayType) (pos : JsNumber)
    (widths : List LayoutPart) :
    (setPositions nameDisplayType pos widths).map (·.part) = widths.map (·.part) := by
  induction widths generalizing pos with
  | nil => rfl
  | cons w ws ih =>
    rw [setPositions, List.map_cons, List.map_cons, ih]

/-- Each part starts where the one before it ends. -/
theorem placed_setPositions {nameDisplayType : NameDisplayType} {widths : List LayoutPart}
    {shares : List ℚ} (hwidth : widths.map (·.finalWidth) = shares.map finite)
    (hbase : ∀ w ∈ shares, (basePartSize : ℚ) ≤ w) (start : ℚ) :
    Placed start (setPositions nameDisplayType (finite start) widths) (start + shares.sum) := by
  induction widths generalizing shares start with
  | nil =>
    cases shares with
    | nil => exact (add_zero start).symm
    | cons w ws => cases hwidth
  | cons lp lps ih =>
    cases shares with
    | nil => cases hwidth
    | cons w ws =>
      obtain ⟨hw, hws⟩ : lp.finalWidth = finite w ∧
        lps.map (·.finalWidth) = ws.map finite := List.cons.inj hwidth
      have hbar : finite basePartSize + (lp.finalWidth - finite basePartSize) = finite w := by
        rw [hw, finite_sub, finite_add]
        congr 1
        ring
      have hnext : finite start + finite basePartSize + (lp.finalWidth - finite basePartSize) =
          finite (start + w) := by
        rw [hw, finite_sub, finite_add, finite_add]
        congr 1
        ring
      refine ⟨rfl, w, hbase w List.mem_cons_self, hbar, ?_⟩
      rw [hnext, List.sum_cons, ← add_assoc]
      exact ih hws (fun v hv => hbase v (List.mem_cons_of_mem w hv)) (start + w)

/-! ### Parts without durations -/

section Untimed

variable {parts : List Part} {nameDisplayType : NameDisplayType} {available : ℤ}

variable (nameDisplayType) in
theorem remainingDuration_untimed (h : ∀ p ∈ parts, p.duration = 0) :
    remainingDuration (parts.map (initialLayoutPart nameDisplayType)) = 0 := by
  refine List.sum_eq_zero fun d hd => ?_
  obtain ⟨q, hq, rfl⟩ := List.mem_map.mp hd
  obtain ⟨p, hp, rfl⟩ := List.mem_map.mp (List.mem_filter.mp hq).1
  exact h p hp

/-- Nothing is a share of nothing, so no part gets a width. -/
theorem calcFinalPartWidths_untimed {fuel : ℕ} {widths : List LayoutPart}
    (hfits : minRequiredSpace nameDisplayType parts ≤ available)
    (h : ∀ p ∈ parts, p.duration = 0)
    (hwidths : calcFinalPartWidths fuel available
      (parts.map (initialLayoutPart nameDisplayType)) = some widths) :
    ∀ w ∈ widths, w.finalWidth = nan := by
  have hrem := remainingDuration_untimed nameDisplayType h
  have hideal : ∀ q ∈ parts.map (initialLayoutPart nameDisplayType), getIdealWidth available
      (parts.map (initialLayoutPart nameDisplayType)) q = nan := by
    intro q hq
    obtain ⟨p, hp, rfl⟩ := List.mem_map.mp hq
    exact getIdealWidth_nan hrem (h p hp)
  have hdone : ∀ q ∈ parts.map (initialLayoutPart nameDisplayType), tight available
      (parts.map (initialLayoutPart nameDisplayType)) q = false := by
    intro q hq
    rw [tight, hideal q hq]
    exact Bool.and_false _
  cases fuel with
  | zero => cases hwidths
  | succ fuel =>
    rw [calcFinalPartWidths] at hwidths
    have hdone' := (done_iff (sound_initial hfits)).mpr hdone
    have heq := Option.some.inj ((if_pos hdone').symm.trans hwidths)
    intro w hw
    rw [← heq, finalizedParts_eq, updateIf, List.map_map] at hw
    obtain ⟨q, hq, rfl⟩ := List.mem_map.mp hw
    have hfinal : isNotFinal q = true := by
      obtain ⟨p, -, rfl⟩ := List.mem_map.mp hq
      rfl
    rw [Function.comp_apply, isNotFinal_round (sound_initial hfits) hq, hdone q hq, hfinal]
    exact ((round_of_loose (hdone q hq)).2 hfinal).trans (hideal q hq)

theorem calcPartWidths_untimed {fuel : ℕ} {widths : List LayoutPart} {used : NameDisplayType}
    (h : ∀ p ∈ parts, p.duration = 0)
    (hwidths : calcPartWidths fuel available nameDisplayType parts = some (widths, used)) :
    ∀ w ∈ widths, w.finalWidth = nan := by
  induction fuel generalizing nameDisplayType with
  | zero => cases hwidths
  | succ fuel ih =>
    by_cases hfits : minRequiredSpace nameDisplayType parts ≤ available
    · rw [calcPartWidths_of_fits hfits] at hwidths
      obtain ⟨found, hfound, heq⟩ := Option.map_eq_some_iff.mp hwidths
      obtain ⟨rfl, -⟩ := Prod.mk.inj heq
      exact calcFinalPartWidths_untimed hfits h hfound
    · rw [calcPartWidths_of_not_fits hfits] at hwidths
      exact ih hwidths

end Untimed

/-- A part without a width has no place. -/
theorem not_placed_nan {nameDisplayType : NameDisplayType} {widths : List LayoutPart}
    (hne : widths ≠ []) (hnan : ∀ w ∈ widths, w.finalWidth = nan) (start stop : ℚ) :
    ¬ Placed start (setPositions nameDisplayType (finite start) widths) stop := by
  cases widths with
  | nil => exact absurd rfl hne
  | cons w ws =>
    rintro ⟨-, width, -, hwidth, -⟩
    rw [hnan w List.mem_cons_self] at hwidth
    cases hwidth

theorem layoutParts_eq_some {fuel : ℕ} {totalWidth : ℤ} {name : NameDisplayType}
    {parts : List Part} {displayParts : List DisplayPart} :
    layoutParts fuel totalWidth name parts = some displayParts ↔
      ∃ widths used, calcPartWidths fuel (totalWidth - 12) name parts = some (widths, used) ∧
        setPositions used 0 widths = displayParts := by
  rw [layoutParts]
  cases hwidths : calcPartWidths fuel (totalWidth - 12) name parts with
  | none =>
    refine iff_of_false ?_ fun ⟨_, _, h, _⟩ => by cases h
    change ((calcPartWidths fuel (totalWidth - 12) name parts).bind _) ≠ _
    rw [hwidths]
    exact nofun
  | some r =>
    change ((calcPartWidths fuel (totalWidth - 12) name parts).bind _) = _ ↔ _
    rw [hwidths]
    constructor
    · intro h
      exact ⟨r.1, r.2, rfl, Option.some.inj h⟩
    · rintro ⟨widths, used, hr, rfl⟩
      obtain rfl := Option.some.inj hr
      rfl

end Motis.Ui.JourneyTransportGraph
