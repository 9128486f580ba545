import Mathlib.Data.Finset.Basic
import Mathlib.Data.String.Basic
import Mathlib.Data.List.TakeWhile
import Motis.Lib.Fallible
import Motis.Nigiri.Timetable

/-! Name tags of schedules and station ids.

    A schedule is imported as `schedule-<options>:<path>`; its tag is `<options>_`. The id of a
    station is the tag of its schedule followed by the id the feed gives it, and is read back by
    splitting at the first underscore:

        "de_" ++ "8000105"  ──▶  "de_8000105"  ──▶  ("de_", "8000105")

    Options may hold underscores, and `add` notices that a tag was there before only when the next
    one comes. -/

namespace Motis.Nigiri
open Fallible

inductive ImportError where
  | pathDoesNotMatch
  | fileDoesNotExist
  /-- `all schedules require a name tag, even with only one schedule`. -/
  | noNameTag
  | invalidTag
  | noLoaderApplicable
  | noDatasets
  | loading (what : String)
  | loadingFailed
  deriving DecidableEq, Repr

/-! ### Import paths -/

/-- `\w`. -/
def isWord (c : Char) : Bool := c.isAlphanum || c == '_'

/-- `.`, which matches no line terminator. -/
def isDot (c : Char) : Bool := c != '\n' && c != '\r'

structure ImportPath where
  tag : String
  options : String
  path : String
  deriving DecidableEq, Repr

/-- `^(\w+)(?:\-(.*?))?:(.*)$`: the options end at the first colon. -/
def splitImportPath (fileExists : String → Bool) (importPath : String) :
    Except ImportError ImportPath := do
  let (tag, rest) := importPath.toList.span isWord
  let (options, path) ← match rest with
    | ':' :: path => pure ([], path)
    | '-' :: rest =>
      match rest.span (· != ':') with
      | (options, ':' :: path) => pure (options, path)
      | _ => throw .pathDoesNotMatch
    | _ => throw .pathDoesNotMatch
  if tag = [] ∨ ¬ (options.all isDot ∧ path.all isDot) then throw .pathDoesNotMatch
  if !fileExists (String.ofList path) then throw .fileDoesNotExist
  return ⟨String.ofList tag, String.ofList options, String.ofList path⟩

/-! ### tag_lookup -/

structure TagLookup where
  srcToTag : List String := []
  tagToSrc : Std.TreeMap String SourceIdx := ∅

namespace TagLookup

def add (tags : TagLookup) (src : SourceIdx) (str : String) : Except ImportError TagLookup :=
  if tags.tagToSrc.size = src then
    .ok { srcToTag := tags.srcToTag ++ [str], tagToSrc := tags.tagToSrc.insertIfNew str src }
  else .error .invalidTag

/-- `get_src`; `none` is `source_idx_t::invalid()`. -/
def getSrc (tags : TagLookup) (tag : String) : Option SourceIdx := tags.tagToSrc[tag]?

end TagLookup

/-- The schedules of a file event get their tags, in their order. -/
def registerTags (paths : List ImportPath) : Except ImportError TagLookup := do
  if !paths.all fun p => p.tag != "schedule" || p.options != "" then throw .noNameTag
  let schedules := paths.filter (·.tag == "schedule")
  let tags ← schedules.zipIdx.foldlM (fun tags (p, src) => tags.add src (p.options ++ "_")) {}
  if schedules = [] then throw .noDatasets
  return tags

/-- The name tags of the schedules among the import paths. -/
def nameTags (paths : List ImportPath) : List String :=
  (paths.filter (·.tag == "schedule")).map (·.options)

/-! ### Station ids -/

def splitTagAndLocationId (stationId : String) : String × String :=
  match stationId.toList.span (· != '_') with
  | (tag, _ :: id) => (String.ofList (tag ++ ['_']), String.ofList id)
  | (_, []) => ("", stationId)

/-- The locations of a timetable: each has its own pair of feed id and source. -/
structure LocationIndex (tt : Timetable) where
  locations : Finset LocationIdx
  locationIdToIdx : String × Option SourceIdx → Option LocationIdx
  locationIdToIdx_eq_some : ∀ id src l, locationIdToIdx (id, src) = some l ↔
    l ∈ locations ∧ tt.ids l = id ∧ tt.src l = src

variable {tt : Timetable}

/-- The index of given locations. -/
def LocationIndex.ofList (locations : List LocationIdx)
    (hunique : ∀ l ∈ locations, ∀ l' ∈ locations,
      tt.ids l = tt.ids l' → tt.src l = tt.src l' → l = l') : LocationIndex tt where
  locations := locations.toFinset
  locationIdToIdx p := locations.find? fun l => tt.ids l = p.1 ∧ tt.src l = p.2
  locationIdToIdx_eq_some id src l := by
    constructor
    · intro h
      have hfound := List.find?_some h
      simp only [decide_eq_true_eq] at hfound
      exact ⟨List.mem_toFinset.mpr (List.mem_of_find?_eq_some h), hfound⟩
    · rintro ⟨hl, rfl, rfl⟩
      rw [List.mem_toFinset] at hl
      cases h : locations.find? fun l' => tt.ids l' = tt.ids l ∧ tt.src l' = tt.src l with
      | none => exact absurd (List.find?_eq_none.mp h l hl) (by simp)
      | some l' =>
        have hfound := List.find?_some h
        simp only [decide_eq_true_eq] at hfound
        exact congrArg some
          (hunique l' (List.mem_of_find?_eq_some h) l hl hfound.1 hfound.2)

/-- `get_location_idx`; an unknown id throws. -/
def getLocationIdx (tags : TagLookup) (locations : LocationIndex tt) (stationId : String) :
    Except Error LocationIdx :=
  let (tag, id) := splitTagAndLocationId stationId
  match locations.locationIdToIdx (id, tags.getSrc tag) with
  | some l => .ok l
  | none => .error .outOfRange

/-- The timetable was loaded from the tagged schedules. -/
structure LoadedWith (tt : Timetable) (locations : LocationIndex tt) (tags : TagLookup) : Prop where
  sources : ∀ l ∈ locations.locations, ∀ src, tt.src l = some src → src < tags.srcToTag.length
  tags : ∀ src tag, tags.srcToTag[src]? = some tag → tt.tag src = tag

/-! ### Registered tags -/

/-- A tag is looked up as the first schedule it was registered for. -/
def TagLookup.FirstWins (tags : TagLookup) : Prop :=
  ∀ tag, tags.getSrc tag = tags.srcToTag.idxOf? tag

theorem idxOf?_append_singleton (l : List String) (a t : String) :
    (l ++ [a]).idxOf? t =
      if t ∈ l then l.idxOf? t else if a = t then some l.length else none := by
  induction l with
  | nil => simp [List.idxOf?_cons]
  | cons b l ih =>
    rw [List.cons_append, List.idxOf?_cons, List.idxOf?_cons, ih]
    by_cases hb : b = t
    · simp [hb]
    · have hmem : t ∈ b :: l ↔ t ∈ l := by simp [Ne.symm hb]
      simp only [beq_iff_eq, hb, if_false, hmem]
      split_ifs <;> simp

theorem TagLookup.FirstWins.add {tags tags' : TagLookup} {str : String} (h : tags.FirstWins)
    (hadd : tags.add tags.srcToTag.length str = .ok tags') :
    tags'.FirstWins ∧ tags'.srcToTag = tags.srcToTag ++ [str] := by
  rw [TagLookup.add] at hadd
  split_ifs at hadd
  obtain rfl := Except.ok.inj hadd
  refine ⟨fun tag => ?_, rfl⟩
  have hmem : str ∈ tags.tagToSrc ↔ str ∈ tags.srcToTag := by
    have hsrc : tags.tagToSrc[str]? = tags.srcToTag.idxOf? str := h str
    rw [Std.TreeMap.mem_iff_isSome_getElem?, hsrc, ← Option.ne_none_iff_isSome, Ne,
      List.idxOf?_eq_none_iff, not_not]
  have htag : tags.tagToSrc[tag]? = tags.srcToTag.idxOf? tag := h tag
  rw [idxOf?_append_singleton, getSrc, Std.TreeMap.getElem?_insertIfNew, htag]
  rcases eq_or_ne str tag with rfl | hne
  · by_cases hold : str ∈ tags.srcToTag
    · rw [if_neg fun hnew => hnew.2 (hmem.mpr hold), if_pos hold]
    · rw [if_pos ⟨Std.ReflCmp.compare_self, mt hmem.mp hold⟩, if_neg hold, if_pos rfl]
  · rw [if_neg fun hnew => hne (Std.LawfulEqOrd.eq_of_compare hnew.1), if_neg hne]
    split_ifs with hold
    · rfl
    · rw [List.idxOf?_eq_none_iff.mpr hold]

/-- Registering schedules from `tags` on. -/
theorem foldlM_add {tags tags' : TagLookup} (options : List String) (h : tags.FirstWins)
    (hadd : (options.zipIdx tags.srcToTag.length).foldlM
      (fun tags (o, src) => tags.add src (o ++ "_")) tags = .ok tags') :
    tags'.FirstWins ∧ tags'.srcToTag = tags.srcToTag ++ options.map (· ++ "_") := by
  induction options generalizing tags with
  | nil =>
    obtain rfl := Except.ok.inj hadd
    exact ⟨h, by simp⟩
  | cons o options ih =>
    obtain ⟨tags₁, hfirst, hrest⟩ := foldlM_cons_ok hadd
    obtain ⟨h₁, htags⟩ := h.add hfirst
    have hlen : tags₁.srcToTag.length = tags.srcToTag.length + 1 := by simp [htags]
    rw [← hlen] at hrest
    obtain ⟨h', htags'⟩ := ih h₁ hrest
    refine ⟨h', ?_⟩
    rw [htags', htags, List.map_cons, List.append_assoc, List.singleton_append]

theorem registerTags_spec {paths : List ImportPath} {tags : TagLookup}
    (h : registerTags paths = .ok tags) :
    tags.FirstWins ∧ tags.srcToTag = (nameTags paths).map (· ++ "_") := by
  have hempty : TagLookup.FirstWins {} := fun tag => by simp [TagLookup.getSrc]
  simp only [registerTags] at h
  split at h
  · cases h
  · obtain ⟨tags', hfold, h⟩ := bind_ok h
    split at h
    · cases h
    · obtain rfl := Except.ok.inj h
      have hmap : ((nameTags paths).zipIdx 0).foldlM
          (fun tags (o, src) => TagLookup.add tags src (o ++ "_")) {} = .ok tags' := by
        rw [nameTags, List.zipIdx_map, List.foldlM_map]
        exact hfold
      simpa using foldlM_add (nameTags paths) hempty hmap

/-! ### Round trip -/

theorem splitTagAndLocationId_append {tag : String} (htag : '_' ∉ tag.toList) (id : String) :
    splitTagAndLocationId (tag ++ "_" ++ id) = (tag ++ "_", id) := by
  have hspan : (tag ++ "_" ++ id).toList.span (· != '_') = (tag.toList, '_' :: id.toList) := by
    have hall : ∀ c ∈ tag.toList, (c != '_') = true := fun c hc => by
      simpa using ne_of_mem_of_not_mem hc htag
    rw [List.span_eq_takeWhile_dropWhile]
    simp [List.takeWhile_append_of_pos hall, List.dropWhile_append_of_pos hall]
  rw [splitTagAndLocationId, hspan]
  simp

theorem splitTagAndLocationId_of_notMem {id : String} (hid : '_' ∉ id.toList) :
    splitTagAndLocationId id = ("", id) := by
  have hall : ∀ c ∈ id.toList, (c != '_') = true := fun c hc => by
    simpa using ne_of_mem_of_not_mem hc hid
  have hspan : id.toList.span (· != '_') = (id.toList, []) := by
    rw [List.span_eq_takeWhile_dropWhile, List.takeWhile_eq_self_iff.mpr hall,
      List.dropWhile_eq_nil_iff.mpr hall]
  rw [splitTagAndLocationId, hspan]

/-- A string with an underscore is split at its first one. -/
theorem exists_underscore {s : String} (h : '_' ∈ s.toList) :
    ∃ tag id : String, s = tag ++ "_" ++ id ∧ '_' ∉ tag.toList := by
  obtain ⟨tag, id, hs, htag⟩ := List.eq_append_cons_of_mem h
  refine ⟨String.ofList tag, String.ofList id, String.toList_injective ?_, by simpa using htag⟩
  simp [hs]

theorem getLocationIdx_eq_ok {tags : TagLookup} {locations : LocationIndex tt}
    {stationId : String} {l : LocationIdx} :
    getLocationIdx tags locations stationId = .ok l ↔
      l ∈ locations.locations ∧ tt.ids l = (splitTagAndLocationId stationId).2 ∧
        tt.src l = tags.getSrc (splitTagAndLocationId stationId).1 := by
  rw [← locations.locationIdToIdx_eq_some, getLocationIdx]
  generalize splitTagAndLocationId stationId = split
  cases h : locations.locationIdToIdx (split.2, tags.getSrc split.1) <;> simp [h]

/-- The location's id can be read back: what stands before the feed id holds one underscore, at
    its end, and is first registered for the location's source. -/
def ReadsBack (tags : List String) (tt : Timetable) (l : LocationIdx) : Prop :=
  match tt.src l with
  | none => '_' ∉ (tt.ids l).toList
  | some src => ∃ tag, tags[src]? = some tag ∧ '_' ∉ tag.toList ∧ tag ∉ tags.take src

theorem idxOf?_map_underscore (tags : List String) (tag : String) :
    (tags.map (· ++ "_")).idxOf? (tag ++ "_") = tags.idxOf? tag := by
  induction tags with
  | nil => rfl
  | cons t tags ih => simp [List.idxOf?_cons, ih]

/-- An entry is found at its index when none before it is the same. -/
theorem idxOf?_eq_some_iff_notMem_take {tags : List String} {tag : String} {i : ℕ}
    (h : tags[i]? = some tag) : tags.idxOf? tag = some i ↔ tag ∉ tags.take i := by
  obtain ⟨hlt, hget⟩ := List.getElem?_eq_some_iff.mp h
  rw [List.idxOf?_eq_some_iff, List.mem_take_iff_getElem]
  constructor
  · rintro ⟨_, _, hfirst⟩ ⟨j, hj, hsame⟩
    exact hfirst j (lt_of_lt_of_le hj (min_le_left _ _)) hsame
  · intro hnot
    exact ⟨hlt, hget, fun j hj hsame => hnot ⟨j, lt_min hj (hj.trans hlt), hsame⟩⟩

theorem readsBack_iff {paths : List ImportPath} {tags : TagLookup} {locations : LocationIndex tt}
    (htags : registerTags paths = .ok tags) (hload : LoadedWith tt locations tags)
    {l : LocationIdx} (hl : l ∈ locations.locations) :
    getLocationIdx tags locations (tt.getStationId l) = .ok l ↔
      ReadsBack (nameTags paths) tt l := by
  obtain ⟨hfirst, hsrcToTag⟩ := registerTags_spec htags
  rw [getLocationIdx_eq_ok, ReadsBack, Timetable.getStationId]
  cases hsrc : tt.src l with
  | none =>
    simp only [Timetable.getTag, String.empty_append]
    constructor
    · rintro ⟨-, hid, -⟩ hmem
      obtain ⟨tag, rest, hs, htag⟩ := exists_underscore hmem
      rw [hs, splitTagAndLocationId_append htag] at hid
      have hlen := congrArg String.length hid
      simp at hlen
    · intro hid
      rw [splitTagAndLocationId_of_notMem hid]
      refine ⟨hl, rfl, ?_⟩
      rw [hfirst, hsrcToTag, eq_comm, List.idxOf?_eq_none_iff]
      simp
  | some src =>
    have hlt : src < (nameTags paths).length := by
      simpa [hsrcToTag] using hload.sources l hl src hsrc
    obtain ⟨tag, htag⟩ : ∃ tag, (nameTags paths)[src]? = some tag :=
      ⟨_, List.getElem?_eq_getElem hlt⟩
    have hgetTag : tt.getTag (some src) = tag ++ "_" :=
      hload.tags src _ (by simp [hsrcToTag, htag])
    rw [hgetTag]
    by_cases hmem : '_' ∈ tag.toList
    · refine iff_of_false (fun ⟨_, hid, _⟩ => ?_) (by simp [htag, hmem])
      obtain ⟨tag₁, tag₂, rfl, htag₁⟩ := exists_underscore hmem
      have hassoc : tag₁ ++ "_" ++ tag₂ ++ "_" ++ tt.ids l =
          tag₁ ++ "_" ++ (tag₂ ++ "_" ++ tt.ids l) := by simp [String.append_assoc]
      rw [hassoc, splitTagAndLocationId_append htag₁] at hid
      have hlen := congrArg String.length hid
      simp at hlen
    · rw [splitTagAndLocationId_append hmem, hfirst, hsrcToTag, idxOf?_map_underscore,
        @eq_comm _ (some src), idxOf?_eq_some_iff_notMem_take htag]
      simp [hl, htag, hmem]

/-- CORRECT: the ids of all stations lead back to them, and no two stations share one, exactly when
    every location `ReadsBack`. -/
theorem stationIds_iff {paths : List ImportPath} {tags : TagLookup} {locations : LocationIndex tt}
    (htags : registerTags paths = .ok tags) (hload : LoadedWith tt locations tags) :
    ((∀ l ∈ locations.locations, getLocationIdx tags locations (tt.getStationId l) = .ok l) ∧
      ∀ l ∈ locations.locations, ∀ l' ∈ locations.locations,
        tt.getStationId l = tt.getStationId l' → l = l') ↔
      ∀ l ∈ locations.locations, ReadsBack (nameTags paths) tt l := by
  constructor
  · rintro ⟨hback, -⟩ l hl
    exact (readsBack_iff htags hload hl).mp (hback l hl)
  · intro h
    have hback : ∀ l ∈ locations.locations,
        getLocationIdx tags locations (tt.getStationId l) = .ok l :=
      fun l hl => (readsBack_iff htags hload hl).mpr (h l hl)
    refine ⟨hback, fun l hl l' hl' hsame => ?_⟩
    have hok := hback l hl
    rw [hsame, hback l' hl'] at hok
    exact (Except.ok.inj hok).symm

/-- The second of two equal tags is the last one, so `add` does not notice. -/
def sameTagPaths : List ImportPath := [⟨"schedule", "de", "a.zip"⟩, ⟨"schedule", "de", "b.zip"⟩]

/-- Each feed has a stop `1`. -/
def sameTagTimetable : Timetable where
  ids _ := "1"
  src := some
  tag _ := "de_"

def sameTagLocations : LocationIndex sameTagTimetable :=
  .ofList [0, 1] (fun _ _ _ _ _ hsrc => Option.some.inj hsrc)

example : ["schedule-de:a.zip", "schedule-de:b.zip"].mapM (splitImportPath fun _ => true) =
    .ok sameTagPaths := by decide

theorem registerTags_sameTagPaths : ∃ tags, registerTags sameTagPaths = .ok tags ∧
    LoadedWith sameTagTimetable sameTagLocations tags := by
  obtain ⟨tags, htags⟩ : ∃ tags, registerTags sameTagPaths = .ok tags := ⟨_, rfl⟩
  have hsrcToTag : tags.srcToTag = ["de_", "de_"] := (registerTags_spec htags).2
  refine ⟨tags, htags, fun l hl src hsrc => ?_, fun src tag htag => ?_⟩
  · obtain rfl := Option.some.inj hsrc
    revert l
    rw [hsrcToTag]
    decide
  · rw [hsrcToTag] at htag
    match src, htag with
    | 0, htag | 1, htag => exact Option.some.inj htag

theorem stationIds_iff_sameTag : ∃ tags, registerTags sameTagPaths = .ok tags ∧
    (((∀ l ∈ sameTagLocations.locations,
        getLocationIdx tags sameTagLocations (sameTagTimetable.getStationId l) = .ok l) ∧
      ∀ l ∈ sameTagLocations.locations, ∀ l' ∈ sameTagLocations.locations,
        sameTagTimetable.getStationId l = sameTagTimetable.getStationId l' → l = l') ↔
      ∀ l ∈ sameTagLocations.locations,
        ReadsBack (nameTags sameTagPaths) sameTagTimetable l) := by
  obtain ⟨tags, htags, hload⟩ := registerTags_sameTagPaths
  exact ⟨tags, htags, stationIds_iff htags hload⟩

/-- The ids of both stops are `de_1`. -/
theorem stationIds_not_roundTrip : ¬ ∀ (paths : List ImportPath) (tags : TagLookup) (tt : Timetable)
    (locations : LocationIndex tt), registerTags paths = .ok tags → LoadedWith tt locations tags →
      (∀ l ∈ locations.locations, getLocationIdx tags locations (tt.getStationId l) = .ok l) ∧
        ∀ l ∈ locations.locations, ∀ l' ∈ locations.locations,
          tt.getStationId l = tt.getStationId l' → l = l' := by
  intro h
  obtain ⟨tags, htags, hload⟩ := registerTags_sameTagPaths
  obtain ⟨-, hinj⟩ := h _ tags _ _ htags hload
  exact absurd (hinj 0 (by decide) 1 (by decide) rfl) (by decide)

end Motis.Nigiri
