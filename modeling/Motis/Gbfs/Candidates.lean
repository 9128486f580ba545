import Motis.Gbfs.Route

/-! The loops of a search keep the first of the shortest candidates of each target.

    A loop over places updates the bests of all targets. Seen from one target it goes through the
    candidates that lead there, in the order of the loops:

        p      (b₀, p) (b₁, p) …    (sx₀, sp₀, p) (sx₀, sp₁, p) … (sx₁, sp₀, p) …  -/

namespace Motis.Gbfs
open Best

/-! ### Updates -/

section Updates

/-- A candidate is compared with the best of its target. -/
def update (total : JourneyInfo → ℕ) (best : List Journey) (c : JourneyInfo) : List Journey :=
  best.modify c.p (improve (total c) c)

def ofBest (b : ℕ × Option JourneyInfo) : Journey := ⟨b.1, b.2⟩

variable {total : JourneyInfo → ℕ}

/-- Totals below the best one fit into 16 bits. -/
theorem improve_ofBest {b : ℕ × Option JourneyInfo} (hb : b.1 ≤ 65535) (c : JourneyInfo) :
    improve (total c) c (ofBest b) = ofBest (keep total b c) := by
  rw [improve, keep, ofBest]
  by_cases hlt : total c < b.1
  · have hmod : total c % 2 ^ 16 = total c := Nat.mod_eq_of_lt (by omega)
    rw [if_pos hlt, if_pos hlt, hmod]
    rfl
  · rw [if_neg hlt, if_neg hlt]
    rfl

theorem best_le (l : List JourneyInfo) (limit : ℕ) : (best total limit l).1 ≤ limit := by
  rcases best_spec total limit l with ⟨hbest, -⟩ | ⟨c, hbest, hc⟩
  · rw [hbest]
  · rw [hbest]
    exact hc.lt_limit.le

theorem foldl_improve (l : List JourneyInfo) :
    l.foldl (fun b c => improve (total c) c b) {} = ofBest (best total 65535 l) := by
  induction l using List.reverseRecOn with
  | nil => rfl
  | append_singleton l c ih =>
    rw [List.foldl_concat, ih, improve_ofBest (best_le l 65535), best_concat]

/-- A loop is an update with the candidates of its rounds. -/
theorem loop_eq {α : Type} {l : List α} {f : List Journey → α → List Journey}
    {g : α → List JourneyInfo} (h : ∀ a ∈ l, ∀ best, f best a = (g a).foldl (update total) best)
    (best : List Journey) : l.foldl f best = (l.flatMap g).foldl (update total) best := by
  rw [List.foldl_flatMap]
  exact List.foldl_ext _ _ best fun best a ha => h a ha best

theorem getElem?_foldl_update (l : List JourneyInfo) {n p : ℕ} (hp : p < n) :
    (l.foldl (update total) (List.replicate n {}))[p]? =
      some (ofBest (best total 65535 (l.filter fun c => c.p = p))) := by
  have h := getElem?_foldl_modify JourneyInfo.p (fun b c => improve (total c) c b) l
    (List.replicate n {}) p
  rw [List.getElem?_replicate_of_lt hp, Option.map_some, foldl_improve] at h
  exact h

/-- Of the rounds for all targets, those for one. -/
theorem filter_targets {n p : ℕ} (hp : p < n) {f : ℕ → List JourneyInfo}
    (hf : ∀ p, ∀ c ∈ f p, c.p = p) :
    ((List.range n).flatMap f).filter (fun c => c.p = p) = f p := by
  rw [List.filter_flatMap]
  have hone : ∀ k, (f k).filter (fun c => c.p = p) = if k = p then f k else [] := by
    intro k
    split
    · rename_i hk
      exact List.filter_eq_self.mpr fun c hc => by simp [hf k c hc, hk]
    · rename_i hk
      exact List.filter_eq_nil_iff.mpr fun c hc => by simp [hf k c hc, hk]
  simp only [hone]
  induction n with
  | zero => omega
  | succ n ih =>
    rw [List.range_succ, List.flatMap_append]
    rcases Nat.lt_or_eq_of_le (Nat.lt_succ_iff.mp hp) with hlt | rfl
    · rw [ih hlt]
      simp [hlt.ne']
    · have hnil : (List.range p).flatMap (fun k => if k = p then f k else []) = [] := by
        rw [List.flatMap_eq_nil_iff]
        intro k hk
        exact if_neg (List.mem_range.mp hk).ne
      rw [hnil]
      simp

end Updates

/-! ### Responses -/

section Responses

variable {undefined : Cost → UInt16}

theorem zipIdx_oneToMany (n : ℕ) (f : ℕ → Option ℕ) : (oneToManyResponse n f).zipIdx =
    (List.range n).map fun i => (oneToManyCost (f i), i) := by
  refine List.ext_getElem (by simp [oneToManyResponse]) fun i h h' => ?_
  simp [oneToManyResponse]

theorem getDuration_table {n m : ℕ} (f : ℕ → ℕ → Option ℕ) {i j : ℕ} (hi : i < n) (hj : j < m) :
    getDuration undefined (tableResponse n m f) (i * m + j) =
      toDuration undefined (tableCost (f i j)) := by
  rw [getDuration, tableResponse, List.getD_eq_getElem?_getD, RowMajor.getElem?_rowMajor _ hi hj,
    Option.getD_some]

end Responses

/-! ### Candidates -/

section Candidates

variable {provider : Provider} (undefined : Cost → UInt16) (q : Query provider)

/-- The checks of the loops. -/
def WithinLimits : JourneyInfo → Prop
  | .b walk ride _ _ => walk ≤ q.maxFootDuration ∧ ride ≤ q.maxBikeDuration
  | .s firstWalk ride secondWalk _ _ _ => firstWalk ≤ q.maxFootDuration ∧
      ride ≤ q.maxBikeDuration ∧ secondWalk ≤ q.maxFootDuration ∧
      firstWalk + secondWalk ≤ q.maxFootDuration

instance : DecidablePred (WithinLimits q) := fun c => by
  cases c <;> exact inferInstanceAs (Decidable (_ ∧ _))

def fwdB (t : ForwardTimes) (b p : ℕ) : JourneyInfo :=
  .b (toDuration undefined (oneToManyCost (t.xToB b)))
    (toDuration undefined (tableCost (t.bToP b p))) b p

def fwdS (t : ForwardTimes) (sx sp p : ℕ) : JourneyInfo :=
  .s (toDuration undefined (oneToManyCost (t.xToSx sx)))
    (toDuration undefined (tableCost (t.sxToSp sx sp)))
    (toDuration undefined (tableCost (t.spToP sp p))) sx sp p

def bwdB (t : BackwardTimes) (b p : ℕ) : JourneyInfo :=
  .b (toDuration undefined (tableCost (t.pToB p b)))
    (toDuration undefined (oneToManyCost (t.bToX b))) b p

def bwdS (t : BackwardTimes) (sx sp p : ℕ) : JourneyInfo :=
  .s (toDuration undefined (tableCost (t.pToSp p sp)))
    (toDuration undefined (tableCost (t.spToSx sp sx)))
    (toDuration undefined (oneToManyCost (t.sxToX sx))) sx sp p

/-- The rounds of the loops around the one over the targets. -/
def roundsFwd (t : ForwardTimes) : List (ℕ → JourneyInfo) :=
  (List.range q.b.length).map (fwdB undefined t) ++
    (List.range q.sx.length).flatMap fun sx => (List.range q.sp.length).map (fwdS undefined t sx)

/-- The stations with a vehicle, when there is a vehicle that stands somewhere else. -/
def stationsBwd : List ℕ :=
  if q.b = [] then [] else (List.range q.sp.length).filter fun sp => bikesAvailable q.sp sp ≠ 0

def roundsBwd (t : BackwardTimes) : List (ℕ → JourneyInfo) :=
  (List.range q.b.length).map (bwdB undefined t) ++
    (List.range q.sx.length).flatMap fun sx => (stationsBwd q).map (bwdS undefined t sx)

/-- What some rounds look at for the first n targets. -/
def loops (rounds : List (ℕ → JourneyInfo)) (n : ℕ) : List JourneyInfo :=
  rounds.flatMap fun f => (List.range n).flatMap fun p => if WithinLimits q (f p) then [f p] else []

/-- The candidates of a target in the order of the loops. -/
def candidates (rounds : List (ℕ → JourneyInfo)) (p : ℕ) : List JourneyInfo :=
  (rounds.map fun f => f p).filter (WithinLimits q)

def candidatesFwd (t : ForwardTimes) (p : ℕ) : List JourneyInfo :=
  candidates q (roundsFwd undefined q t) p

def candidatesBwd (t : BackwardTimes) (p : ℕ) : List JourneyInfo :=
  candidates q (roundsBwd undefined q t) p

def totalFwd : JourneyInfo → ℕ
  | .s firstWalk ride secondWalk _ _ _ => bikeReadyTime + firstWalk + ride + secondWalk
  | .b walk ride _ _ => bikeReadyTime + walk + ride

/-- Backward the ready time of a free-floating vehicle is not counted. -/
def totalBwd : JourneyInfo → ℕ
  | .s firstWalk ride secondWalk _ _ _ => bikeReadyTime + firstWalk + ride + secondWalk
  | .b walk ride _ _ => walk + ride

variable {undefined q}

theorem filter_map_eq_flatMap {α β : Type} (l : List α) (f : α → β) (P : β → Prop)
    [DecidablePred P] :
    (l.map f).filter (fun b => P b) = l.flatMap fun a => if P (f a) then [f a] else [] := by
  induction l with
  | nil => rfl
  | cons a l ih =>
    rw [List.map_cons, List.filter_cons, List.flatMap_cons, ih]
    simp only [decide_eq_true_eq]
    split <;> rfl

theorem flatMap_filter_eq {α β : Type} (l : List α) (keep : α → Bool) (f : α → List β) :
    (l.filter keep).flatMap f = l.flatMap fun a => if keep a then f a else [] := by
  induction l with
  | nil => rfl
  | cons a l ih =>
    rw [List.filter_cons, List.flatMap_cons]
    split
    · rw [List.flatMap_cons, ih]
    · rw [List.nil_append, ih]

/-- A round that is skipped has no candidates. -/
theorem skip_eq {total : JourneyInfo → ℕ} {skip : Prop} [Decidable skip] {cs : List JourneyInfo}
    {best rest : List Journey} (hskip : skip → cs = [])
    (hrest : ¬skip → rest = cs.foldl (update total) best) :
    (if skip then best else rest) = cs.foldl (update total) best := by
  split
  · rename_i h
    rw [hskip h, List.foldl_nil]
  · rename_i h
    exact hrest h

/-- The round of a candidate. -/
theorem candidate_eq {total : JourneyInfo → ℕ} {skip : Prop} [Decidable skip] {c : JourneyInfo}
    {best rest : List Journey} (hskip : skip ↔ ¬WithinLimits q c)
    (hrest : rest = update total best c) : (if skip then best else rest) =
      (if WithinLimits q c then [c] else []).foldl (update total) best := by
  refine skip_eq (fun h => if_neg (hskip.mp h)) fun h => ?_
  rw [if_pos (not_not.mp fun hnot => h (hskip.mpr hnot)), hrest]
  rfl

theorem freeFloatFwd_eq (t : ForwardTimes) (best : List Journey) :
    freeFloatFwd undefined q t best =
      (loops q ((List.range q.b.length).map (fwdB undefined t)) q.targets).foldl
        (update totalFwd) best := by
  rw [freeFloatFwd, zipIdx_oneToMany, List.foldl_map, loops, List.flatMap_map]
  refine loop_eq (fun b hb best => skip_eq (fun hwalk => ?_) fun hwalk => ?_) best
  · refine List.flatMap_eq_nil_iff.mpr fun p _ => if_neg fun hwithin => ?_
    exact absurd hwithin.1 (not_le.mpr hwalk)
  · refine loop_eq (fun p hp best => ?_) best
    rw [getDuration_table _ (List.mem_range.mp hb) (List.mem_range.mp hp)]
    refine candidate_eq ?_ rfl
    simp only [fwdB, WithinLimits]
    omega

theorem stationFwd_eq (t : ForwardTimes) (best : List Journey) :
    stationFwd undefined q t best =
      (loops q ((List.range q.sx.length).flatMap fun sx =>
        (List.range q.sp.length).map (fwdS undefined t sx)) q.targets).foldl
        (update totalFwd) best := by
  rw [stationFwd, zipIdx_oneToMany, List.foldl_map, loops, List.flatMap_assoc]
  simp only [List.flatMap_map]
  refine loop_eq (fun sx hsx best => skip_eq (fun hfirst => ?_) fun hfirst => ?_) best
  · refine List.flatMap_eq_nil_iff.mpr fun sp _ => List.flatMap_eq_nil_iff.mpr fun p _ =>
      if_neg fun hwithin => ?_
    exact absurd hwithin.1 (not_le.mpr hfirst)
  · refine loop_eq (fun sp hsp best => ?_) best
    rw [getDuration_table _ (List.mem_range.mp hsx) (List.mem_range.mp hsp)]
    refine skip_eq (fun hride => ?_) fun hride => ?_
    · refine List.flatMap_eq_nil_iff.mpr fun p _ => if_neg fun hwithin => ?_
      exact absurd hwithin.2.1 (not_le.mpr hride)
    · refine loop_eq (fun p hp best => ?_) best
      rw [getDuration_table _ (List.mem_range.mp hsp) (List.mem_range.mp hp)]
      refine candidate_eq ?_ rfl
      simp only [fwdS, WithinLimits]
      omega

theorem freeFloatBwd_eq (t : BackwardTimes) (best : List Journey) :
    freeFloatBwd undefined q t best =
      (loops q ((List.range q.b.length).map (bwdB undefined t)) q.p.length).foldl
        (update totalBwd) best := by
  rw [freeFloatBwd, zipIdx_oneToMany, List.foldl_map, loops, List.flatMap_map]
  refine loop_eq (fun b hb best => skip_eq (fun hride => ?_) fun hride => ?_) best
  · refine List.flatMap_eq_nil_iff.mpr fun p _ => if_neg fun hwithin => ?_
    exact absurd hwithin.2 (not_le.mpr hride)
  · refine loop_eq (fun p hp best => ?_) best
    have htarget : p < q.targets := Nat.lt_add_right _ (List.mem_range.mp hp)
    rw [getDuration_table _ htarget (List.mem_range.mp hb)]
    refine candidate_eq ?_ rfl
    simp only [bwdB, WithinLimits]
    omega

theorem stationBwd_eq (t : BackwardTimes) (best : List Journey) :
    stationBwd undefined q t best =
      (loops q ((List.range q.sx.length).flatMap fun sx =>
        ((List.range q.sp.length).filter fun sp => bikesAvailable q.sp sp ≠ 0).map
          (bwdS undefined t sx)) q.p.length).foldl (update totalBwd) best := by
  rw [stationBwd, zipIdx_oneToMany, List.foldl_map, loops, List.flatMap_assoc]
  simp only [List.flatMap_map]
  refine loop_eq (fun sx hsx best => skip_eq (fun hsecond => ?_) fun hsecond => ?_) best
  · refine List.flatMap_eq_nil_iff.mpr fun sp _ => List.flatMap_eq_nil_iff.mpr fun p _ =>
      if_neg fun hwithin => ?_
    have hlimit : toDuration undefined (oneToManyCost (t.sxToX sx)) ≤ q.maxFootDuration :=
      hwithin.2.2.1
    exact absurd hlimit (not_le.mpr hsecond)
  · rw [flatMap_filter_eq]
    refine loop_eq (fun sp hsp best => ?_) best
    refine skip_eq (fun hbikes => ?_) fun hbikes => ?_
    · rw [if_neg (by simpa using hbikes)]
    · have hkeep : decide (bikesAvailable q.sp sp ≠ 0) = true := by
        simpa using hbikes
      rw [if_pos hkeep, getDuration_table _ (List.mem_range.mp hsp) (List.mem_range.mp hsx)]
      refine skip_eq (fun hride => ?_) fun hride => ?_
      · refine List.flatMap_eq_nil_iff.mpr fun p _ => if_neg fun hwithin => ?_
        exact absurd hwithin.2.1 (not_le.mpr hride)
      · refine loop_eq (fun p hp best => ?_) best
        have htarget : p < q.targets := Nat.lt_add_right _ (List.mem_range.mp hp)
        rw [getDuration_table _ htarget (List.mem_range.mp hsp)]
        refine candidate_eq ?_ rfl
        simp only [bwdS, WithinLimits]
        omega

theorem flatMap_map_nil {α β γ : Type} (l : List α) (f : α → β → γ) :
    (l.flatMap fun a => ([] : List β).map (f a)) = [] :=
  List.flatMap_eq_nil_iff.mpr fun _ _ => rfl

theorem loops_append (rounds rounds' : List (ℕ → JourneyInfo)) (n : ℕ) :
    loops q (rounds ++ rounds') n = loops q rounds n ++ loops q rounds' n :=
  List.flatMap_append

theorem bestFwd_eq (t : ForwardTimes) : bestFwd undefined q t =
    (loops q (roundsFwd undefined q t) q.targets).foldl (update totalFwd) (noJourneys q) := by
  rw [roundsFwd, loops_append, List.foldl_append, ← freeFloatFwd_eq, ← stationFwd_eq, bestFwd]
  have hb : (if q.b = [] then noJourneys q else freeFloatFwd undefined q t (noJourneys q)) =
      freeFloatFwd undefined q t (noJourneys q) := by
    refine ite_eq_right_iff.mpr fun hb => ?_
    rw [freeFloatFwd_eq, hb]
    rfl
  rw [hb]
  refine ite_eq_right_iff.mpr fun h => ?_
  rw [stationFwd_eq]
  rcases h with h | h
  · rw [h]
    rfl
  · rw [h, List.length_nil, List.range_zero, flatMap_map_nil]
    rfl

theorem bestBwd_eq (t : BackwardTimes) : bestBwd undefined q t =
    (loops q (roundsBwd undefined q t) q.p.length).foldl (update totalBwd) (noJourneys q) := by
  rw [roundsBwd, stationsBwd, loops_append, List.foldl_append, ← freeFloatBwd_eq, bestBwd]
  by_cases hb : q.b = []
  · -- no vehicle stands somewhere: neither variant is searched
    have hguard : ¬(q.b ≠ [] ∧ ¬(q.sp = [] ∨ q.sx = [])) := fun h => h.1 hb
    rw [if_neg hguard, if_pos hb, if_pos hb, flatMap_map_nil, freeFloatBwd_eq, hb]
    rfl
  · rw [if_neg hb, if_neg hb, ← stationBwd_eq]
    refine ite_eq_left_iff.mpr fun h => ?_
    have hplaces : q.sp = [] ∨ q.sx = [] := by
      by_contra hplaces
      exact h ⟨hb, hplaces⟩
    rw [stationBwd_eq]
    rcases hplaces with h | h
    · rw [h, List.length_nil, List.range_zero, List.filter_nil, flatMap_map_nil]
      rfl
    · rw [h]
      rfl

/-! ### One target -/

/-- The rounds lead to the target of the loop. -/
def Leads (rounds : List (ℕ → JourneyInfo)) : Prop := ∀ f ∈ rounds, ∀ p, (f p).p = p

theorem leads_append {free : List ℕ} {b : ℕ → ℕ → JourneyInfo} {places : List ℕ}
    {others : List ℕ} {s : ℕ → ℕ → ℕ → JourneyInfo} (hb : ∀ i p, (b i p).p = p)
    (hs : ∀ i j p, (s i j p).p = p) :
    Leads (free.map b ++ places.flatMap fun i => others.map (s i)) := by
  intro f hf p
  rcases List.mem_append.mp hf with hf | hf
  · obtain ⟨i, -, rfl⟩ := List.mem_map.mp hf
    exact hb i p
  · obtain ⟨i, -, hf⟩ := List.mem_flatMap.mp hf
    obtain ⟨j, -, rfl⟩ := List.mem_map.mp hf
    exact hs i j p

variable (undefined q) in
theorem leads_roundsFwd (t : ForwardTimes) : Leads (roundsFwd undefined q t) :=
  leads_append (fun _ _ => rfl) fun _ _ _ => rfl

variable (undefined q) in
theorem leads_roundsBwd (t : BackwardTimes) : Leads (roundsBwd undefined q t) :=
  leads_append (fun _ _ => rfl) fun _ _ _ => rfl

theorem eq_of_mem_ite {c c' : JourneyInfo} (h : c' ∈ if WithinLimits q c then [c] else []) :
    c' = c := by
  split at h
  · exact List.mem_singleton.mp h
  · exact absurd h List.not_mem_nil

theorem filter_loops {rounds : List (ℕ → JourneyInfo)} (h : Leads rounds) {n p : ℕ} (hp : p < n) :
    (loops q rounds n).filter (fun c => c.p = p) = candidates q rounds p := by
  rw [loops, candidates, List.filter_flatMap, filter_map_eq_flatMap]
  refine List.flatMap_congr fun f hf => filter_targets hp fun k c hc => ?_
  rw [eq_of_mem_ite hc, h f hf k]

theorem filter_loops_nil {rounds : List (ℕ → JourneyInfo)} (h : Leads rounds) {n p : ℕ}
    (hp : n ≤ p) : (loops q rounds n).filter (fun c => c.p = p) = [] := by
  refine List.filter_eq_nil_iff.mpr fun c hc => ?_
  obtain ⟨f, hf, hc⟩ := List.mem_flatMap.mp hc
  obtain ⟨k, hk, hc⟩ := List.mem_flatMap.mp hc
  have hlt := List.mem_range.mp hk
  rw [eq_of_mem_ite hc, h f hf k]
  simp only [decide_eq_true_eq]
  omega

/-- The best journey of a target is the best of its candidates. -/
theorem getElem?_bestFwd (t : ForwardTimes) {p : ℕ} (hp : p < q.targets) :
    (bestFwd undefined q t)[p]? =
      some (ofBest (best totalFwd 65535 (candidatesFwd undefined q t p))) := by
  rw [bestFwd_eq, noJourneys, getElem?_foldl_update _ hp,
    filter_loops (leads_roundsFwd undefined q t) hp, candidatesFwd]

theorem getElem?_bestBwd (t : BackwardTimes) {p : ℕ} (hp : p < q.p.length) :
    (bestBwd undefined q t)[p]? =
      some (ofBest (best totalBwd 65535 (candidatesBwd undefined q t p))) := by
  have htarget : p < q.targets := Nat.lt_add_right _ hp
  rw [bestBwd_eq, noJourneys, getElem?_foldl_update _ htarget,
    filter_loops (leads_roundsBwd undefined q t) hp, candidatesBwd]

/-- There is no backward search for direct targets. -/
theorem getElem?_bestBwd_direct (t : BackwardTimes) {p : ℕ} (hp : q.p.length ≤ p)
    (htarget : p < q.targets) : (bestBwd undefined q t)[p]? = some {} := by
  rw [bestBwd_eq, noJourneys, getElem?_foldl_update _ htarget,
    filter_loops_nil (leads_roundsBwd undefined q t) hp]
  rfl

theorem length_foldl_update {total : JourneyInfo → ℕ} (l : List JourneyInfo) (best : List Journey) :
    (l.foldl (update total) best).length = best.length := by
  induction l generalizing best with
  | nil => rfl
  | cons c l ih => rw [List.foldl_cons, ih, update, List.length_modify]

theorem length_bestFwd (t : ForwardTimes) : (bestFwd undefined q t).length = q.targets := by
  rw [bestFwd_eq, length_foldl_update, noJourneys, List.length_replicate]

theorem length_bestBwd (t : BackwardTimes) : (bestBwd undefined q t).length = q.targets := by
  rw [bestBwd_eq, length_foldl_update, noJourneys, List.length_replicate]

end Candidates

end Motis.Gbfs
