import Motis.Lib.Fallible
import Motis.Nigiri.ToMotisJourney

/-! Which sections the ranges of a converted journey cover.

    The sections of a journey follow from its legs: a run leg has one between any two of its stops,
    a walk is one unless it is a transfer. Every value a section of a run carries is marked in an
    interval map, and a range covers exactly the marked sections and those between two marked ones.
    So a range covers a walk between two runs of one value, too. -/

namespace Motis.Nigiri
open Fallible FieldOrder IntervalMap
open Ranged (range setRange)

inductive Section where
  | ride (fr : Frun) (stopIdx : ℕ)
  | walk

section Conversion
variable (tt : Timetable)

def legSections (leg : Leg) : List Section :=
  match leg.uses with
  | .runEnterExit fr stopRange =>
    (List.range' stopRange.from_ (stopRange.to_ - stopRange.from_ - 1)).map (.ride fr)
  | _ => if isTransfer tt leg then [] else [.walk]

/-- The sections of a journey: section `s` lies between the stops `s` and `s + 1`. -/
def sections (legs : List Leg) : List Section := legs.flatMap (legSections tt)

/-- Section `s` was produced by a run whose section there carries `x`. -/
def Carries {T : Type} (secs : List Section) (values : SectionValues → List T) (x : T) (s : ℕ) :
    Prop :=
  ∃ fr i v, secs[s]? = some (.ride fr i) ∧ sectionValues tt fr i = .ok v ∧ x ∈ values v

/-- What the conversion of legs with these sections has entered so far. -/
structure Converted (secs : List Section) (c : Conversion) : Prop where
  transports : c.transports.Marks (Carries tt secs (·.infos))
  externTrips : c.externTrips.Marks (Carries tt secs (·.trips))
  attributes : c.attributes.Marks (Carries tt secs (·.attributes))
  walks : ∀ t ∈ c.mj.transports, t.isWalk = true ∧ t.to_ = t.from_ + 1 ∧
    secs[t.from_]? = some .walk
  walked : ∀ s, secs[s]? = some .walk → ∃ t ∈ c.mj.transports, t.from_ = s
  noTrips : c.mj.trips = []
  noAttributes : c.mj.attributes = []

/-- Every section so far has both of its stops. -/
def Closed (secs : List Section) (c : Conversion) : Prop :=
  c.mj.stops.length = secs.length + 1 ∨ c.mj.stops = [] ∧ secs = []

variable {tt} {secs : List Section} {c c' : Conversion} {fr : Frun}

/-! ### One section more -/

theorem getElem?_append_singleton {α : Type} {l : List α} {a b : α} {s : ℕ} :
    (l ++ [a])[s]? = some b ↔ (s = l.length ∧ a = b) ∨ l[s]? = some b := by
  rw [List.getElem?_append]
  rcases Nat.lt_trichotomy s l.length with hlt | rfl | hgt
  · rw [if_pos hlt]
    exact (or_iff_right fun h => absurd h.1 hlt.ne).symm
  · simp
  · rw [if_neg (by omega), List.getElem?_eq_none (by simp; omega),
      List.getElem?_eq_none (by omega : l.length ≤ s)]
    simp [hgt.ne']

theorem carries_walk {T : Type} {values : SectionValues → List T} :
    Carries tt (secs ++ [.walk]) values = Carries tt secs values := by
  funext x s
  simp [Carries, getElem?_append_singleton]

theorem carries_ride {T : Type} {values : SectionValues → List T} {i : ℕ} {v : SectionValues}
    (hv : sectionValues tt fr i = .ok v) :
    Carries tt (secs ++ [.ride fr i]) values =
      fun x s => (x ∈ values v ∧ s = secs.length) ∨ Carries tt secs values x s := by
  funext x s
  simp only [Carries, getElem?_append_singleton, eq_iff_iff]
  constructor
  · rintro ⟨fr', i', v', ⟨hs, heq⟩ | hs, hv', hx⟩
    · obtain ⟨rfl, rfl⟩ := Section.ride.inj heq
      obtain rfl : v = v' := Except.ok.inj (hv.symm.trans hv')
      exact .inl ⟨hx, hs⟩
    · exact .inr ⟨fr', i', v', hs, hv', hx⟩
  · rintro (⟨hx, hs⟩ | ⟨fr', i', v', hs, hv', hx⟩)
    · exact ⟨fr, i, v, .inl ⟨hs, rfl⟩, hv, hx⟩
    · exact ⟨fr', i', v', .inr hs, hv', hx⟩

theorem Converted.ride_walks (h : Converted tt secs c) (fr : Frun) (i : ℕ) :
    (∀ t ∈ c.mj.transports, t.isWalk = true ∧ t.to_ = t.from_ + 1 ∧
      (secs ++ [.ride fr i])[t.from_]? = some .walk) ∧
    ∀ s, (secs ++ [.ride fr i])[s]? = some .walk → ∃ t ∈ c.mj.transports, t.from_ = s := by
  constructor
  · intro t ht
    obtain ⟨hwalk, hto, hs⟩ := h.walks t ht
    exact ⟨hwalk, hto, getElem?_append_singleton.mpr (.inr hs)⟩
  · intro s hs
    rcases getElem?_append_singleton.mp hs with ⟨-, heq⟩ | hs
    · cases heq
    · exact h.walked s hs

/-- `add_transports` after a stop enters the section that starts there. -/
theorem addTransports_spec {i : ℕ} (h : Converted tt secs c)
    (hlen : c.mj.stops.length = secs.length + 1) (hadd : addTransports tt fr i c = .ok c') :
    Converted tt (secs ++ [.ride fr i]) c' ∧ c'.mj.stops.length = secs.length + 1 := by
  obtain ⟨v, hv, hc⟩ := bind_ok hadd
  obtain rfl := Except.ok.inj hc
  obtain ⟨hwalks, hwalked⟩ := h.ride_walks fr i
  refine ⟨⟨?_, ?_, ?_, hwalks, hwalked, h.noTrips, h.noAttributes⟩, hlen⟩
  · rw [carries_ride hv, hlen]
    exact h.transports.addEntries secs.length v.infos
  · rw [carries_ride hv, hlen]
    exact h.externTrips.addEntries secs.length v.trips
  · rw [carries_ride hv, hlen]
    exact h.attributes.addEntries secs.length v.attributes

/-! ### A run leg -/

/-- The stops do not matter to what has been entered. -/
theorem Converted.setStops (h : Converted tt secs c) (stops : List Journey.Stop) :
    Converted tt secs { c with mj := { c.mj with stops := stops } } :=
  ⟨h.transports, h.externTrips, h.attributes, h.walks, h.walked, h.noTrips, h.noAttributes⟩

/-- One iteration over the stops of a run: the stop, and unless it is the last its section. -/
theorem rideStop_spec {stopRange : StopRange} {i : ℕ} (h : Converted tt secs c)
    (hc : (fr.stop i).isCanceled = false)
    (hlen : if i = stopRange.from_ then Closed secs c else c.mj.stops.length = secs.length)
    (hride : rideStop tt fr stopRange c i = .ok c') :
    Converted tt (if i = stopRange.to_ - 1 then secs else secs ++ [.ride fr i]) c' ∧
      c'.mj.stops.length = secs.length + 1 := by
  rw [rideStop, hc] at hride
  simp only [Bool.false_eq_true, if_false] at hride
  set stops := if (i == stopRange.from_ && !c.mj.stops.isEmpty) = true then _ else _ with hstops
  have hlen' : stops.length = secs.length + 1 := by
    rw [hstops]
    rcases eq_or_ne i stopRange.from_ with henter | henter
    · rw [if_pos henter] at hlen
      rcases hlen with hclosed | ⟨hnil, rfl⟩
      · have hne : c.mj.stops ≠ [] := List.ne_nil_of_length_pos (by omega)
        rw [if_pos (by simp [henter, hne])]
        simp [hclosed]
      · simp [hnil]
    · rw [if_neg henter] at hlen
      rw [if_neg (by simp [henter])]
      simp [hlen]
  rcases eq_or_ne i (stopRange.to_ - 1) with hexit | hexit
  · rw [if_pos (by simpa using hexit)] at hride
    obtain rfl := Except.ok.inj hride
    rw [if_pos hexit]
    exact ⟨h.setStops _, hlen'⟩
  · rw [if_neg (by simpa using hexit)] at hride
    rw [if_neg hexit]
    exact addTransports_spec (h.setStops _) hlen' hride

/-- The iterations after the first: `n` sections and the last stop. -/
theorem rideRest_spec {stopRange : StopRange} (n : ℕ) {i : ℕ} (h : Converted tt secs c)
    (hfrom : stopRange.from_ < i) (hto : i + n + 1 = stopRange.to_)
    (hc : ∀ k, i ≤ k → k < stopRange.to_ → (fr.stop k).isCanceled = false)
    (hlen : c.mj.stops.length = secs.length)
    (hride : (List.range' i (n + 1)).foldlM (rideStop tt fr stopRange) c = .ok c') :
    Converted tt (secs ++ (List.range' i n).map (.ride fr)) c' ∧
      c'.mj.stops.length = secs.length + n + 1 := by
  induction n generalizing i secs c with
  | zero =>
    obtain ⟨c₁, hstop, hrest⟩ := foldlM_cons_ok hride
    obtain rfl := Except.ok.inj hrest
    have hspec := rideStop_spec h (hc i le_rfl (by omega))
      (by rw [if_neg hfrom.ne']; exact hlen) hstop
    rw [if_pos (by omega)] at hspec
    simpa using hspec
  | succ n ih =>
    obtain ⟨c₁, hstop, hrest⟩ := foldlM_cons_ok hride
    have hspec := rideStop_spec h (hc i le_rfl (by omega))
      (by rw [if_neg hfrom.ne']; exact hlen) hstop
    rw [if_neg (by omega)] at hspec
    obtain ⟨hconv, hlen₁⟩ := ih hspec.1 (by omega) (by omega)
      (fun k hk => hc k (by omega)) (by simpa using hspec.2) hrest
    rw [List.range'_succ, List.map_cons, List.append_cons]
    refine ⟨?_, ?_⟩
    · simpa using hconv
    · simp at hlen₁ ⊢
      omega

theorem rideLeg_spec {stopRange : StopRange} (h : Converted tt secs c) (hclosed : Closed secs c)
    (hc : ∀ k, stopRange.from_ ≤ k → k < stopRange.to_ → (fr.stop k).isCanceled = false)
    (hride : (List.range' stopRange.from_ (stopRange.to_ - stopRange.from_)).foldlM
      (rideStop tt fr stopRange) c = .ok c') :
    let secs' := secs ++
      (List.range' stopRange.from_ (stopRange.to_ - stopRange.from_ - 1)).map (.ride fr)
    Converted tt secs' c' ∧ Closed secs' c' := by
  intro secs'
  rcases hn : stopRange.to_ - stopRange.from_ with _ | n
  · rw [hn] at hride
    obtain rfl := Except.ok.inj hride
    have hsecs : secs' = secs := by simp [secs', hn]
    rw [hsecs]
    exact ⟨h, hclosed⟩
  · rw [hn] at hride
    obtain ⟨c₁, hstop, hrest⟩ := foldlM_cons_ok hride
    have hspec := rideStop_spec h (hc _ le_rfl (by omega)) (by rw [if_pos rfl]; exact hclosed) hstop
    cases n with
    | zero =>
      obtain rfl := Except.ok.inj hrest
      rw [if_pos (by omega)] at hspec
      have hsecs : secs' = secs := by simp [secs', hn]
      rw [hsecs]
      exact ⟨hspec.1, .inl hspec.2⟩
    | succ n =>
      rw [if_neg (by omega)] at hspec
      obtain ⟨hconv, hlen⟩ := rideRest_spec n hspec.1 (Nat.lt_succ_self _) (by omega)
        (fun k hk => hc k (by omega)) (by simpa using hspec.2) hrest
      have hsecs : secs' = secs ++ [.ride fr stopRange.from_] ++
          (List.range' (stopRange.from_ + 1) n).map (.ride fr) := by
        simp [secs', hn, List.range'_succ]
      rw [hsecs]
      exact ⟨hconv, .inl (by simp at hlen ⊢; omega)⟩

/-! ### A walk leg -/

theorem Closed.length_dropLast (h : Closed secs c) :
    c.mj.stops.dropLast.length = secs.length := by
  rcases h with h | ⟨hnil, rfl⟩
  · simp [h]
  · simp [hnil]

/-- A walk that is no transfer is one section, covered by its own transport. -/
theorem addWalk_spec (leg : Leg) (duration : Int16) (mumoId : Int32) (h : Converted tt secs c)
    (hclosed : Closed secs c) :
    let secs' := secs ++ if isTransfer tt leg then [] else [.walk]
    Converted tt secs' (addWalk tt leg duration mumoId c) ∧
      Closed secs' (addWalk tt leg duration mumoId c) := by
  intro secs'
  have hlen := hclosed.length_dropLast
  by_cases htransfer : isTransfer tt leg
  · have hsecs : secs' = secs := by simp [secs', htransfer]
    rw [hsecs, addWalk, if_pos htransfer]
    exact ⟨h.setStops _, .inl (by simp [← hlen])⟩
  · have hsecs : secs' = secs ++ [.walk] := by simp [secs', htransfer]
    rw [hsecs, addWalk, if_neg htransfer]
    refine ⟨⟨?_, ?_, ?_, ?_, ?_, h.noTrips, h.noAttributes⟩, .inl (by simp [← hlen])⟩
    · rw [carries_walk]; exact h.transports
    · rw [carries_walk]; exact h.externTrips
    · rw [carries_walk]; exact h.attributes
    · intro t ht
      rcases List.mem_append.mp ht with ht | ht
      · obtain ⟨hwalk, hto, hs⟩ := h.walks t ht
        exact ⟨hwalk, hto, getElem?_append_singleton.mpr (.inr hs)⟩
      · obtain rfl := List.mem_singleton.mp ht
        exact ⟨rfl, rfl, getElem?_append_singleton.mpr (.inl ⟨hlen, rfl⟩)⟩
    · intro s hs
      rcases getElem?_append_singleton.mp hs with ⟨rfl, -⟩ | hs
      · exact ⟨_, List.mem_append_right _ (List.mem_singleton_self _), hlen⟩
      · obtain ⟨t, ht, hfrom⟩ := h.walked s hs
        exact ⟨t, List.mem_append_left _ ht, hfrom⟩

/-! ### All legs -/

/-- No stop of a run leg is cancelled. -/
def NotCanceled (legs : List Leg) : Prop :=
  ∀ leg ∈ legs, match leg.uses with
    | .runEnterExit fr stopRange =>
      ∀ k, stopRange.from_ ≤ k → k < stopRange.to_ → (fr.stop k).isCanceled = false
    | _ => True

/-- One leg more. -/
theorem addLeg_spec {leg : Leg} (h : Converted tt secs c) (hclosed : Closed secs c)
    (hc : NotCanceled [leg]) (hadd : addLeg tt c leg = .ok c') :
    Converted tt (secs ++ legSections tt leg) c' ∧ Closed (secs ++ legSections tt leg) c' := by
  have hc := hc leg (List.mem_singleton_self leg)
  rw [addLeg] at hadd
  rw [legSections]
  cases huses : leg.uses with
  | runEnterExit fr stopRange =>
    rw [huses] at hadd hc
    exact rideLeg_spec h hclosed hc hadd
  | footpath duration =>
    rw [huses] at hadd
    obtain rfl := Except.ok.inj hadd
    exact addWalk_spec leg duration (-1) h hclosed
  | offset duration transportModeId =>
    rw [huses] at hadd
    obtain rfl := Except.ok.inj hadd
    exact addWalk_spec leg duration transportModeId h hclosed

/-- All legs. -/
theorem addLegs_spec {legs : List Leg} (h : Converted tt secs c) (hclosed : Closed secs c)
    (hc : NotCanceled legs) (hadd : legs.foldlM (addLeg tt) c = .ok c') :
    Converted tt (secs ++ sections tt legs) c' ∧ Closed (secs ++ sections tt legs) c' := by
  induction legs generalizing secs c with
  | nil =>
    obtain rfl := Except.ok.inj hadd
    simpa [sections] using And.intro h hclosed
  | cons leg legs ih =>
    obtain ⟨c₁, hleg, hrest⟩ := foldlM_cons_ok hadd
    obtain ⟨hleg', hlegs⟩ := List.forall_mem_cons.mp hc
    obtain ⟨h₁, hclosed₁⟩ := addLeg_spec h hclosed (by simpa [NotCanceled] using hleg') hleg
    rw [sections, List.flatMap_cons, ← List.append_assoc]
    exact ih h₁ hclosed₁ hlegs hrest

theorem converted_empty : Converted tt [] {} := by
  have hnone : ∀ {T : Type} (values : SectionValues → List T),
      Carries tt [] values = fun _ _ => False := by
    intro T values
    funext x s
    simp [Carries]
  refine ⟨?_, ?_, ?_, by simp, by simp, rfl, rfl⟩
  all_goals
    rw [hnone]
    exact marks_empty

end Conversion

/-! ### The ranges -/

section Ranges
variable {T α : Type} [Ord T] [Std.TransOrd T] [Std.LawfulEqOrd T] [Ranged α]

/-- A range of the list with the value of `w` covers section `s`. -/
def RangeCovers (l : List α) (w : α) (s : ℕ) : Prop :=
  ∃ a ∈ l, setRange a (0, 0) = w ∧ Covers (range a) s

/-- The values as they stand in the journey: `f` with no range. -/
def Shown (f : T → ℕ × ℕ → α) (marked : T → ℕ → Prop) (w : α) (s : ℕ) : Prop :=
  ∃ x, f x (0, 0) = w ∧ marked x s

/-- Between two sections with a value lies none without it. -/
def Gapless (carried : α → ℕ → Prop) : Prop :=
  ∀ w s, carried w s → carried w (s + 2) → carried w (s + 1)

/-- Ranges cover what is marked and what lies between. -/
theorem rangeCovers_emit {m : IntervalMap T} {f : T → ℕ × ℕ → α} {marked : T → ℕ → Prop}
    (hm : m.Marks marked) (hf : ∀ x r, range (f x r) = r ∧ setRange (f x r) (0, 0) = f x (0, 0))
    (hinj : ∀ x y s t, marked x s → marked y t → f x (0, 0) = f y (0, 0) → x = y) {w : α} {s : ℕ} :
    RangeCovers (emit m f) w s ↔ Shown f marked w s ∨
      Shown f marked w (s + 1) ∧ ∃ t, s = t + 1 ∧ Shown f marked w t := by
  have hcov : RangeCovers (emit m f) w s ↔ ∃ x, f x (0, 0) = w ∧ m.Covered x s := by
    simp only [RangeCovers, emit, List.mem_flatMap, List.mem_map, Covered]
    constructor
    · rintro ⟨_, ⟨⟨x, ranges⟩, hx, r, hr, rfl⟩, hw, hs⟩
      rw [(hf x r).2] at hw
      rw [(hf x r).1] at hs
      exact ⟨x, hw, ranges, hx, r, hr, hs⟩
    · rintro ⟨x, hw, ranges, hx, r, hr, hs⟩
      refine ⟨_, ⟨_, hx, r, hr, rfl⟩, (hf x r).2.trans hw, ?_⟩
      rwa [(hf x r).1]
  rw [hcov]
  constructor
  · rintro ⟨x, hw, hx⟩
    rcases hm.covered_iff.mp hx with hs | ⟨hafter, t, ht, hbefore⟩
    · exact .inl ⟨x, hw, hs⟩
    · exact .inr ⟨⟨x, hw, hafter⟩, t, ht, x, hw, hbefore⟩
  · rintro (⟨x, hw, hs⟩ | ⟨⟨x, hw, hafter⟩, t, ht, y, hw', hbefore⟩)
    · exact ⟨x, hw, hm.covered_iff.mpr (.inl hs)⟩
    · obtain rfl := hinj x y _ _ hafter hbefore (hw.trans hw'.symm)
      exact ⟨x, hw, hm.covered_iff.mpr (.inr ⟨hafter, t, ht, hbefore⟩)⟩

/-- So they cover exactly what is marked when nothing lies between. -/
theorem covers_exactly_iff {l : List α} {carried : α → ℕ → Prop}
    (h : ∀ w s, RangeCovers l w s ↔ carried w s ∨
      carried w (s + 1) ∧ ∃ t, s = t + 1 ∧ carried w t) :
    (∀ w s, RangeCovers l w s ↔ carried w s) ↔ Gapless carried := by
  constructor
  · intro hex w s hs hafter
    exact (hex w (s + 1)).mp ((h w (s + 1)).mpr (.inr ⟨hafter, s, rfl, hs⟩))
  · intro hgap w s
    rw [h w s]
    constructor
    · rintro (hs | ⟨hafter, t, rfl, hbefore⟩)
      · exact hs
      · exact hgap w t hbefore hafter
    · exact .inl

/-- The same ranges, in another order and between other elements, cover the same. -/
theorem RangeCovers.congr {l l' : List α} (h : ∀ a, a ∈ l ↔ a ∈ l') {w : α} {s : ℕ} :
    RangeCovers l w s ↔ RangeCovers l' w s :=
  exists_congr fun a => and_congr_left fun _ => h a

end Ranges

theorem mem_emit {T α : Type} [Ord T] {m : IntervalMap T} {f : T → ℕ × ℕ → α} {a : α}
    (h : a ∈ emit m f) : ∃ x r, f x r = a := by
  obtain ⟨⟨x, ranges⟩, -, ha⟩ := List.mem_flatMap.mp h
  obtain ⟨r, -, rfl⟩ := List.mem_map.mp ha
  exact ⟨x, r, rfl⟩

/-! ### The journey -/

section Journey
variable {tt : Timetable} {legs : List Leg} {mj : Journey}

/-- The display data of a section has no duration, so all of it is shown. -/
theorem transportOf_inj {x y : TransportDisplayInfo} (hx : x.duration = 0) (hy : y.duration = 0)
    (h : transportOf x (0, 0) = transportOf y (0, 0)) : x = y := by
  obtain ⟨xd, xc⟩ := x
  obtain ⟨yd, yc⟩ := y
  simp only [transportOf, Journey.Transport.mk.injEq, UInt8.toUInt32_inj] at h
  simp only at hx hy
  grind

theorem sectionValues_duration {fr : Frun} {i : ℕ} {v : SectionValues}
    (h : sectionValues tt fr i = .ok v) : ∀ x ∈ v.infos, x.duration = 0 := by
  obtain ⟨mergedTripsIdx, -, h⟩ := bind_ok h
  obtain ⟨clasz, -, h⟩ := bind_ok h
  obtain ⟨providerIdx, -, h⟩ := bind_ok h
  obtain ⟨direction, -, h⟩ := bind_ok h
  obtain ⟨line, -, h⟩ := bind_ok h
  obtain ⟨attributes, -, h⟩ := bind_ok h
  obtain ⟨color, -, h⟩ := bind_ok h
  obtain ⟨trips, -, h⟩ := bind_ok h
  obtain rfl := Except.ok.inj h
  intro x hx
  obtain ⟨trip, -, rfl⟩ := List.mem_map.mp hx
  rfl

variable (tt legs) in
/-- Section `s` carries what the transport `w` shows. -/
def CarriesTransport : Journey.Transport → ℕ → Prop :=
  Shown transportOf (Carries tt (sections tt legs) (·.infos))

variable (tt legs) in
def CarriesTrip : Journey.Trip → ℕ → Prop :=
  Shown tripOf (Carries tt (sections tt legs) (·.trips))

variable (tt legs) in
def CarriesAttribute : Journey.RangedAttribute → ℕ → Prop :=
  Shown attributeOf (Carries tt (sections tt legs) (·.attributes))

/-- A journey comes from a conversion of all of its legs. -/
theorem nigiriToMotisJourney_ok (hc : NotCanceled legs)
    (h : nigiriToMotisJourney tt legs = .ok mj) :
    ∃ c, Converted tt (sections tt legs) c ∧ Closed (sections tt legs) c ∧
      mj.stops = c.mj.stops ∧
      (∀ t, t ∈ mj.transports ↔ t ∈ c.mj.transports ∨ t ∈ emit c.transports transportOf) ∧
      (∀ t, t ∈ mj.trips ↔ t ∈ emit c.externTrips tripOf) ∧
      ∀ a, a ∈ mj.attributes ↔ a ∈ emit c.attributes attributeOf := by
  obtain ⟨c, hlegs, hmj⟩ := bind_ok h
  obtain ⟨hconv, hclosed⟩ := addLegs_spec converted_empty (.inr ⟨rfl, rfl⟩) hc hlegs
  obtain rfl := Except.ok.inj hmj
  refine ⟨c, hconv, hclosed, rfl, fun t => ?_, fun t => ?_, fun a => ?_⟩
  · exact (List.mergeSort_perm _ _).mem_iff.trans List.mem_append
  · rw [mem_sort, hconv.noTrips, List.nil_append]
  · rw [mem_sort, hconv.noAttributes, List.nil_append]

/-- The journey has one stop more than sections, unless it is empty. -/
theorem length_stops (hc : NotCanceled legs) (h : nigiriToMotisJourney tt legs = .ok mj) :
    mj.stops.length = (sections tt legs).length + 1 ∨ mj.stops = [] ∧ sections tt legs = [] := by
  obtain ⟨c, -, hclosed, hstops, -⟩ := nigiriToMotisJourney_ok hc h
  rw [hstops]
  exact hclosed

/-- The walks of the journey are its walk sections. -/
theorem walk_sections (hc : NotCanceled legs) (h : nigiriToMotisJourney tt legs = .ok mj) (s : ℕ) :
    (sections tt legs)[s]? = some .walk ↔
      ∃ t ∈ mj.transports, t.isWalk = true ∧ range t = (s, s + 1) := by
  obtain ⟨c, hconv, -, -, htransports, -⟩ := nigiriToMotisJourney_ok hc h
  constructor
  · intro hs
    obtain ⟨t, ht, rfl⟩ := hconv.walked s hs
    obtain ⟨hwalk, hto, -⟩ := hconv.walks t ht
    exact ⟨t, (htransports t).mpr (.inl ht), hwalk, Prod.ext rfl hto⟩
  · rintro ⟨t, ht, hwalk, hrange⟩
    rcases (htransports t).mp ht with ht | ht
    · obtain ⟨-, -, hs⟩ := hconv.walks t ht
      obtain rfl : t.from_ = s := congrArg Prod.fst hrange
      exact hs
    · obtain ⟨x, r, rfl⟩ := mem_emit ht
      cases hwalk

/-- The transports of the journey that are no walks. -/
def rides (mj : Journey) : List Journey.Transport := mj.transports.filter (!·.isWalk)

theorem transport_covers (hc : NotCanceled legs) (h : nigiriToMotisJourney tt legs = .ok mj)
    (w : Journey.Transport) (s : ℕ) :
    RangeCovers (rides mj) w s ↔ CarriesTransport tt legs w s ∨
      CarriesTransport tt legs w (s + 1) ∧ ∃ t, s = t + 1 ∧ CarriesTransport tt legs w t := by
  obtain ⟨c, hconv, -, -, htransports, -⟩ := nigiriToMotisJourney_ok hc h
  have hmem : ∀ t, t ∈ rides mj ↔ t ∈ emit c.transports transportOf := by
    intro t
    rw [rides, List.mem_filter, htransports]
    constructor
    · rintro ⟨ht | ht, hride⟩
      · simp [(hconv.walks t ht).1] at hride
      · exact ht
    · intro ht
      obtain ⟨x, r, rfl⟩ := mem_emit ht
      exact ⟨.inr ht, rfl⟩
  rw [RangeCovers.congr hmem]
  refine rangeCovers_emit hconv.transports (fun x r => ⟨rfl, rfl⟩) ?_
  rintro x y s t ⟨fr, i, v, -, hv, hx⟩ ⟨fr', i', v', -, hv', hy⟩ heq
  exact transportOf_inj (sectionValues_duration hv x hx) (sectionValues_duration hv' y hy) heq

theorem trip_covers (hc : NotCanceled legs) (h : nigiriToMotisJourney tt legs = .ok mj)
    (w : Journey.Trip) (s : ℕ) :
    RangeCovers mj.trips w s ↔ CarriesTrip tt legs w s ∨
      CarriesTrip tt legs w (s + 1) ∧ ∃ t, s = t + 1 ∧ CarriesTrip tt legs w t := by
  obtain ⟨c, hconv, -, -, -, htrips, -⟩ := nigiriToMotisJourney_ok hc h
  rw [RangeCovers.congr htrips]
  refine rangeCovers_emit hconv.externTrips (fun x r => ⟨rfl, rfl⟩) ?_
  intro x y s t _ _ heq
  simp only [tripOf, Journey.Trip.mk.injEq, true_and] at heq
  exact Prod.ext heq.1 heq.2

theorem attribute_covers (hc : NotCanceled legs) (h : nigiriToMotisJourney tt legs = .ok mj)
    (w : Journey.RangedAttribute) (s : ℕ) :
    RangeCovers mj.attributes w s ↔ CarriesAttribute tt legs w s ∨
      CarriesAttribute tt legs w (s + 1) ∧ ∃ t, s = t + 1 ∧ CarriesAttribute tt legs w t := by
  obtain ⟨c, hconv, -, -, -, -, hattributes⟩ := nigiriToMotisJourney_ok hc h
  rw [RangeCovers.congr hattributes]
  refine rangeCovers_emit hconv.attributes (fun x r => ⟨rfl, rfl⟩) ?_
  intro x y s t _ _ heq
  simpa only [attributeOf, Journey.RangedAttribute.mk.injEq, true_and] using heq

/-- Every range of the journey covers exactly the run sections that carry its value. -/
structure SectionsCovered (tt : Timetable) (legs : List Leg) (mj : Journey) : Prop where
  transports : ∀ w s, RangeCovers (rides mj) w s ↔ CarriesTransport tt legs w s
  trips : ∀ w s, RangeCovers mj.trips w s ↔ CarriesTrip tt legs w s
  attributes : ∀ w s, RangeCovers mj.attributes w s ↔ CarriesAttribute tt legs w s

/-- No value comes back one section after a section without it. -/
structure NoGaps (tt : Timetable) (legs : List Leg) : Prop where
  transports : Gapless (CarriesTransport tt legs)
  trips : Gapless (CarriesTrip tt legs)
  attributes : Gapless (CarriesAttribute tt legs)

/-- CORRECT: the ranges cover exactly the sections with their value if and only if no two sections
    with one value enclose a single section without it. -/
theorem sectionsCovered_iff_noGaps (tt : Timetable) (legs : List Leg) (mj : Journey)
    (hc : NotCanceled legs) (h : nigiriToMotisJourney tt legs = .ok mj) :
    SectionsCovered tt legs mj ↔ NoGaps tt legs := by
  have htransports := covers_exactly_iff (transport_covers hc h)
  have htrips := covers_exactly_iff (trip_covers hc h)
  have hattributes := covers_exactly_iff (attribute_covers hc h)
  constructor
  · rintro ⟨h₁, h₂, h₃⟩
    exact ⟨htransports.mp h₁, htrips.mp h₂, hattributes.mp h₃⟩
  · rintro ⟨h₁, h₂, h₃⟩
    exact ⟨htransports.mpr h₁, htrips.mpr h₂, hattributes.mpr h₃⟩

end Journey

/-! ### A line taken twice -/

/-- Two transports of one line: transport `n` goes from stop `2 * n` to stop `2 * n + 1` in five
    minutes, on trip `n`. -/
def shuttleLine : Timetable where
  routeLocationSeq := fun n => [2 * n, 2 * n + 1]
  routeSectionClasz := fun _ => [3]
  transportToTripSection := fun n => [n]
  transportSectionProviders := fun _ => [0]
  mergedTrips := fun n => [n]
  tripDisplayNames := fun _ => "S 1"
  tripDebug := fun _ => [{}]
  tripTransportRanges := fun n => [(n, ⟨0, 2⟩)]
  tripIds := fun n => [n]
  tripIdStrings := fun n => toString n
  eventTime := fun t stopIdx _ => .ofNat (10 * t.tIdx + 5 * stopIdx)

def shuttleStop (n i : ℕ) : RunStop where
  location := 2 * n + i
  time := fun _ => .ofNat (10 * n + 5 * i)
  scheduledTime := fun _ => .ofNat (10 * n + 5 * i)

def shuttleRide (n : ℕ) : Leg where
  from_ := 2 * n
  to_ := 2 * n + 1
  depTime := .ofNat (10 * n)
  arrTime := .ofNat (10 * n + 5)
  uses := .runEnterExit { t := { tIdx := n }, stop := shuttleStop n } ⟨0, 2⟩

def shuttleWalk : Leg where
  from_ := 1
  to_ := 2
  depTime := 5
  arrTime := 10
  uses := .footpath 5

theorem shuttle_notCanceled : NotCanceled [shuttleRide 0, shuttleWalk, shuttleRide 1] := by
  intro leg hleg
  simp only [List.mem_cons, List.not_mem_nil, or_false] at hleg
  rcases hleg with rfl | rfl | rfl
  · exact fun _ _ _ => rfl
  · trivial
  · exact fun _ _ _ => rfl

theorem sectionsCovered_iff_noGaps_shuttle :
    ∃ mj, nigiriToMotisJourney shuttleLine [shuttleRide 0, shuttleWalk, shuttleRide 1] = .ok mj ∧
      (SectionsCovered shuttleLine [shuttleRide 0, shuttleWalk, shuttleRide 1] mj ↔
        NoGaps shuttleLine [shuttleRide 0, shuttleWalk, shuttleRide 1]) :=
  ⟨_, rfl, sectionsCovered_iff_noGaps _ _ _ shuttle_notCanceled rfl⟩

/-- Ride, walk, and ride the same line again: its range covers the walk. -/
theorem shuttle_covers_walk :
    ∃ mj, nigiriToMotisJourney shuttleLine [shuttleRide 0, shuttleWalk, shuttleRide 1] = .ok mj ∧
      NotCanceled [shuttleRide 0, shuttleWalk, shuttleRide 1] ∧
      (sections shuttleLine [shuttleRide 0, shuttleWalk, shuttleRide 1])[1]? = some .walk ∧
      (∃ w, RangeCovers (rides mj) w 1) ∧
      ¬ SectionsCovered shuttleLine [shuttleRide 0, shuttleWalk, shuttleRide 1] mj := by
  have hcarries : ∀ s, s = 0 ∨ s = 2 → CarriesTransport shuttleLine
      [shuttleRide 0, shuttleWalk, shuttleRide 1] (transportOf { clasz := 3, displayName := "S 1" }
        (0, 0)) s := by
    rintro s (rfl | rfl)
    · exact ⟨_, rfl, _, 0, _, rfl, rfl, List.mem_singleton_self _⟩
    · exact ⟨_, rfl, _, 0, _, rfl, rfl, List.mem_singleton_self _⟩
  obtain ⟨mj, hmj⟩ : ∃ mj, nigiriToMotisJourney shuttleLine
      [shuttleRide 0, shuttleWalk, shuttleRide 1] = .ok mj := ⟨_, rfl⟩
  have hcovers := (transport_covers shuttle_notCanceled hmj _ 1).mpr
    (.inr ⟨hcarries 2 (.inr rfl), 0, rfl, hcarries 0 (.inl rfl)⟩)
  refine ⟨mj, hmj, shuttle_notCanceled, rfl, ⟨_, hcovers⟩, fun hcov => ?_⟩
  obtain ⟨x, -, fr, i, v, hwalk, -⟩ := (hcov.transports _ 1).mp hcovers
  cases hwalk

end Motis.Nigiri
