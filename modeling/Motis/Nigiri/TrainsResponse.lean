import Mathlib.Data.List.Forall2
import Mathlib.Data.Int.Notation
import Motis.Nigiri.Timetable

/-! The trains response of the live map.

    Every section of a train is one polyline between its two stops. A polyline is made for an
    unordered pair of stops when it is first needed, and trains refer to it by its index, with a
    negative sign against its direction:

        sections     A → B    B → A    A → C
        polylines    ""       A, B     A, C
        indices      1        -1       2

    Index 0 is taken by an empty polyline, since zero has no sign. -/

namespace Motis.Nigiri

/-- What the response says of a section: the frun between `from_` and `to_`. -/
structure TrainSection where
  name : String := ""
  clasz : UInt8 := 0
  isRt : Bool := false
  /-- The bits of a float. -/
  distance : UInt32 := 0
  from_ : LocationIdx
  to_ : LocationIdx
  dep : NigiriUnixtime := 0
  arr : NigiriUnixtime := 0
  schedDep : NigiriUnixtime := 0
  schedArr : NigiriUnixtime := 0
  externTrip : ExternTrip := {}
  deriving DecidableEq, Repr

namespace Fbs

structure MapStation where
  id : String
  name : String
  pos : Double × Double
  deriving DecidableEq, Repr

structure Train where
  names : List String
  clasz : Int32
  routeDistance : UInt32
  dStationId : String
  aStationId : String
  dTime : Int32
  aTime : Int32
  schedDTime : Int32
  schedATime : Int32
  dTimeReason : TimestampReason
  aTimeReason : TimestampReason
  trip : List ExternTrip
  indices : List ℤ
  deriving DecidableEq, Repr

structure RailVizTrainsResponse where
  stations : List MapStation
  trains : List Train
  polylines : List String
  extras : List UInt64
  deriving DecidableEq, Repr

end Fbs

/-- The two stops of a section, in the order of their indices. -/
def TrainSection.key (s : TrainSection) : LocationIdx × LocationIdx :=
  (min s.from_ s.to_, max s.from_ s.to_)

def TrainSection.sign (s : TrainSection) : ℤ := if s.key.1 ≠ s.from_ then -1 else 1

/-- `CreateTrain` -/
def createTrain (tt : Timetable) (s : TrainSection) (index : ℤ) : Fbs.Train :=
  let reason : TimestampReason := if s.isRt then .forecast else .schedule
  { names := [s.name]
    clasz := s.clasz.toUInt32.toInt32
    routeDistance := s.distance
    dStationId := tt.getStationId s.from_
    aStationId := tt.getStationId s.to_
    dTime := (toMotisUnixtime s.dep).toInt32
    aTime := (toMotisUnixtime s.arr).toInt32
    schedDTime := (toMotisUnixtime s.schedDep).toInt32
    schedATime := (toMotisUnixtime s.schedArr).toInt32
    dTimeReason := reason
    aTimeReason := reason
    trip := [s.externTrip]
    indices := [index] }

/-- `geo::polyline_encoder<6>`: it holds the text and the last position. -/
structure PolylineEncoder (σ : Type) where
  init : σ
  push : σ → Double × Double → σ
  buf : σ → String
  reset : σ → σ
  reset_eq : ∀ s, reset s = init

/-- The text of two positions. -/
def PolylineEncoder.encode {σ : Type} (enc : PolylineEncoder σ) (a b : Double × Double) : String :=
  enc.buf (enc.push (enc.push enc.init a) b)

/-- The variables of `create_response`. -/
structure ResponseBuilder (σ : Type) where
  enc : σ
  stations : List Fbs.MapStation := []
  knownStations : List LocationIdx := []
  polylineIndicesCache : List ((LocationIdx × LocationIdx) × ℤ) := []
  polylines : List String := [""]
  trains : List Fbs.Train := []

section Build
variable {σ : Type} (tt : Timetable) (encoder : PolylineEncoder σ)

namespace ResponseBuilder

def addStation (b : ResponseBuilder σ) (l : LocationIdx) : ResponseBuilder σ :=
  if l ∈ b.knownStations then b
  else
    { b with
      knownStations := b.knownStations ++ [l]
      stations := b.stations ++ [{
        id := tt.resolveId l
        name := tt.names (tt.parents l)
        pos := tt.coordinates l }] }

/-- `get_or_create` of the index of a pair. -/
def getOrCreateIndex (b : ResponseBuilder σ) (key : LocationIdx × LocationIdx) :
    ResponseBuilder σ × ℤ :=
  match b.polylineIndicesCache.lookup key with
  | some index => (b, index)
  | none =>
    let enc := encoder.push (encoder.push b.enc (tt.coordinates key.1)) (tt.coordinates key.2)
    let polylines := b.polylines ++ [encoder.buf enc]
    let index : ℤ := polylines.length - 1
    ({ b with
        enc := encoder.reset enc
        polylines
        polylineIndicesCache := b.polylineIndicesCache ++ [(key, index)] }, index)

def addTrain (b : ResponseBuilder σ) (s : TrainSection) : ResponseBuilder σ :=
  let b := b.addStation tt s.from_
  let b := b.addStation tt s.to_
  let (b, index) := b.getOrCreateIndex tt encoder s.key
  { b with trains := b.trains ++ [createTrain tt s (index * s.sign)] }

end ResponseBuilder

def buildResponse (runs : List TrainSection) : ResponseBuilder σ :=
  runs.foldl (·.addTrain tt encoder) { enc := encoder.init }

/-- `create_response`, for the sections of the runs. -/
def createResponse (runs : List TrainSection) : Fbs.RailVizTrainsResponse :=
  let b := buildResponse tt encoder runs
  { stations := b.stations, trains := b.trains, polylines := b.polylines, extras := [] }

end Build

/-! ### The indices -/

/-! ### The indices -/

namespace ResponseBuilder

section Indices
variable {σ : Type} {tt : Timetable} {encoder : PolylineEncoder σ} {b b' b'' : ResponseBuilder σ}

/-- The cache names polylines of its pairs, each pair another one, and never the first. -/
structure Numbered (tt : Timetable) (encoder : PolylineEncoder σ) (b : ResponseBuilder σ) :
    Prop where
  enc : b.enc = encoder.init
  nonempty : 0 < b.polylines.length
  index : ∀ key v, b.polylineIndicesCache.lookup key = some v → ∃ n : ℕ, v = n ∧ 0 < n ∧
    b.polylines[n]? = some (encoder.encode (tt.coordinates key.1) (tt.coordinates key.2))
  inj : ∀ key key' v, b.polylineIndicesCache.lookup key = some v →
    b.polylineIndicesCache.lookup key' = some v → key = key'

/-- Pairs keep their indices. -/
def Extends (b b' : ResponseBuilder σ) : Prop :=
  ∀ key v, b.polylineIndicesCache.lookup key = some v →
    b'.polylineIndicesCache.lookup key = some v

theorem lookup_append_iff {α β : Type} [BEq α] [LawfulBEq α] {l : List (α × β)} {k k' : α} {v w : β} :
    (l ++ [(k, v)]).lookup k' = some w ↔
      l.lookup k' = some w ∨ l.lookup k' = none ∧ k' = k ∧ v = w := by
  rw [List.lookup_append, Option.or_eq_some_iff, List.lookup_cons]
  by_cases h : k' = k
  · rw [beq_iff_eq.mpr h]
    simp [h]
  · rw [beq_eq_false_iff_ne.mpr h]
    simp [h]

/-- The index of a pair is the one it has from then on. -/
theorem Numbered.getOrCreateIndex (h : b.Numbered tt encoder) (key : LocationIdx × LocationIdx) :
    (b.getOrCreateIndex tt encoder key).1.Numbered tt encoder ∧
    b.Extends (b.getOrCreateIndex tt encoder key).1 ∧
    (b.getOrCreateIndex tt encoder key).1.polylineIndicesCache.lookup key =
      some (b.getOrCreateIndex tt encoder key).2 := by
  rw [ResponseBuilder.getOrCreateIndex]
  cases hlookup : b.polylineIndicesCache.lookup key with
  | some v => exact ⟨h, fun _ _ h => h, hlookup⟩
  | none =>
    simp only
    have hnew : ((b.polylines ++ [encoder.buf (encoder.push (encoder.push b.enc
        (tt.coordinates key.1)) (tt.coordinates key.2))]).length - 1 : ℤ) = b.polylines.length := by
      simp
    rw [hnew]
    -- the new index is larger than those before
    have hless : ∀ k v, b.polylineIndicesCache.lookup k = some v → v ≠ b.polylines.length := by
      intro k v hv
      obtain ⟨n, rfl, -, hn⟩ := h.index k v hv
      have hlt := (List.getElem?_eq_some_iff.mp hn).1
      omega
    refine ⟨⟨encoder.reset_eq _, ?_, fun k v hv => ?_, fun k k' v hk hk' => ?_⟩,
      fun k v hv => lookup_append_iff.mpr (Or.inl hv),
      lookup_append_iff.mpr (Or.inr ⟨hlookup, rfl, rfl⟩)⟩
    · rw [List.length_append]
      exact Nat.lt_add_right _ h.nonempty
    · rcases lookup_append_iff.mp hv with hv | ⟨-, rfl, rfl⟩
      · obtain ⟨n, hn, hpos, hget⟩ := h.index k v hv
        refine ⟨n, hn, hpos, ?_⟩
        rw [List.getElem?_append_left (List.getElem?_eq_some_iff.mp hget).1]
        exact hget
      · refine ⟨b.polylines.length, rfl, h.nonempty, ?_⟩
        rw [List.getElem?_append_right (Nat.le_refl _), Nat.sub_self, h.enc]
        rfl
    · rcases lookup_append_iff.mp hk with hold | ⟨-, hkey, hv⟩
      · rcases lookup_append_iff.mp hk' with hold' | ⟨-, -, hv'⟩
        · exact h.inj k k' v hold hold'
        · exact absurd hv'.symm (hless k v hold)
      · rcases lookup_append_iff.mp hk' with hold' | ⟨-, hkey', -⟩
        · exact absurd hv.symm (hless k' v hold')
        · exact hkey.trans hkey'.symm

theorem Numbered.addStation (h : b.Numbered tt encoder) (l : LocationIdx) :
    (b.addStation tt l).Numbered tt encoder := by
  rw [ResponseBuilder.addStation]
  split
  · exact h
  · exact ⟨h.enc, h.nonempty, h.index, h.inj⟩

theorem addStation_extends (tt : Timetable) (b : ResponseBuilder σ) (l : LocationIdx) :
    b.Extends (b.addStation tt l) := by
  rw [ResponseBuilder.addStation]
  split
  · exact fun _ _ h => h
  · exact fun _ _ h => h

theorem addStation_trains (b : ResponseBuilder σ) (l : LocationIdx) :
    (b.addStation tt l).trains = b.trains := by
  rw [ResponseBuilder.addStation]
  split <;> rfl

theorem getOrCreateIndex_trains (b : ResponseBuilder σ) (key : LocationIdx × LocationIdx) :
    (b.getOrCreateIndex tt encoder key).1.trains = b.trains := by
  rw [ResponseBuilder.getOrCreateIndex]
  split <;> rfl

/-- The train of a section, with the index that the cache has for its stops. -/
def TrainOf (tt : Timetable) (b : ResponseBuilder σ) (s : TrainSection) (train : Fbs.Train) :
    Prop :=
  ∃ v, b.polylineIndicesCache.lookup s.key = some v ∧ train = createTrain tt s (v * s.sign)

theorem TrainOf.extends {s : TrainSection} {train : Fbs.Train} (h : b.TrainOf tt s train)
    (he : b.Extends b') : b'.TrainOf tt s train := by
  obtain ⟨v, hv, rfl⟩ := h
  exact ⟨v, he _ _ hv, rfl⟩

/-- A step adds the train of its section. -/
theorem Numbered.addTrain (h : b.Numbered tt encoder) (s : TrainSection) :
    (b.addTrain tt encoder s).Numbered tt encoder ∧ b.Extends (b.addTrain tt encoder s) ∧
    ∃ train, (b.addTrain tt encoder s).trains = b.trains ++ [train] ∧
      (b.addTrain tt encoder s).TrainOf tt s train := by
  have hstations := (h.addStation s.from_).addStation s.to_
  have hextends := addStation_extends tt b s.from_
  have hextends' := addStation_extends tt (b.addStation tt s.from_) s.to_
  obtain ⟨hnumbered, hcache, hindex⟩ := hstations.getOrCreateIndex s.key
  refine ⟨⟨hnumbered.enc, hnumbered.nonempty, hnumbered.index, hnumbered.inj⟩,
    fun k v hv => hcache k v (hextends' k v (hextends k v hv)), createTrain tt s _, ?_,
    ⟨_, hindex, rfl⟩⟩
  rw [ResponseBuilder.addTrain]
  simp only
  rw [getOrCreateIndex_trains, addStation_trains, addStation_trains]

/-- After all sections, every section has its train. -/
theorem Numbered.foldl (h : b.Numbered tt encoder) {done : List TrainSection}
    (htrains : List.Forall₂ (b.TrainOf tt) done b.trains) (runs : List TrainSection) :
    (runs.foldl (·.addTrain tt encoder) b).Numbered tt encoder ∧
    List.Forall₂ ((runs.foldl (·.addTrain tt encoder) b).TrainOf tt) (done ++ runs)
      (runs.foldl (·.addTrain tt encoder) b).trains := by
  induction runs generalizing b done with
  | nil =>
    rw [List.append_nil]
    exact ⟨h, htrains⟩
  | cons s runs ih =>
    obtain ⟨hstep, hextends, train, happend, htrain⟩ := h.addTrain s
    have hdone : List.Forall₂ ((b.addTrain tt encoder s).TrainOf tt) (done ++ [s])
        (b.addTrain tt encoder s).trains := by
      rw [happend]
      refine List.rel_append ?_ (List.Forall₂.cons htrain List.Forall₂.nil)
      exact htrains.imp fun _ _ ht => ht.extends hextends
    have hrest := ih hstep hdone
    rw [List.append_assoc, List.singleton_append] at hrest
    exact hrest

theorem numbered_init : Numbered tt encoder { enc := encoder.init } where
  enc := rfl
  nonempty := Nat.one_pos
  index := nofun
  inj := nofun

end Indices

end ResponseBuilder

/-- The builder of the response numbers the polylines, and every section has its train. -/
theorem buildResponse_numbered {σ : Type} (tt : Timetable) (encoder : PolylineEncoder σ)
    (runs : List TrainSection) :
    (buildResponse tt encoder runs).Numbered tt encoder ∧
    List.Forall₂ ((buildResponse tt encoder runs).TrainOf tt) runs
      (buildResponse tt encoder runs).trains :=
  ResponseBuilder.numbered_init.foldl List.Forall₂.nil runs

end Motis.Nigiri
