import Motis.Lib.JsString
import Motis.Lib.Runs
import Motis.Ui.Connections
import Motis.Ui.Input

/-! The input field for places, with suggestions.

    The suggestions are the answers of three sources, in this order; one of them is highlighted:

        positions │ stations │ addresses
                        ▲
                    hoverIndex    moved by keys and mouse, kept when an answer comes

    What is selected goes with the text of the field: both are set together, or a missing selection
    is filled in by name. -/

namespace Motis.Ui.Typeahead
open Runs

/-! ### Suggestions -/

structure Position where
  lat : ℚ
  lng : ℚ
  deriving DecidableEq, Repr

structure Region where
  name : String
  adminLevel : ℤ
  deriving DecidableEq, Repr

structure Address where
  pos : Position
  name : String
  typ : String
  regions : List Region
  deriving DecidableEq, Repr

inductive Suggestion where
  | station (station : Station)
  | address (address : Address)
  | position (pos : Position)
  deriving DecidableEq, Repr

/-- What the language gives for texts and numbers, the decoder of a stored selection and the
    debouncing of requests. -/
structure Core where
  floatToString : ℚ → String
  toFloat : String → Option ℚ
  toLower : String → String
  /-- No letter is white space. -/
  toLower_trim : ∀ s, toLower (JsString.trim s) = JsString.trim (toLower s)
  decodeSuggestion : String → Option Suggestion
  debounce : Debounce

variable {core : Core}

def getCity (address : Address) : Option String :=
  (address.regions.filter (·.adminLevel ≤ 8)).head?.map (·.name)

def getShortAddressStr (address : Address) : String :=
  match getCity address with
  | some city => address.name ++ ", " ++ city
  | none => address.name

def getAddressStr : Address → String := getShortAddressStr

variable (core) in
def getPositionStr (pos : Position) : String :=
  core.floatToString pos.lat ++ ";" ++ core.floatToString pos.lng

variable (core) in
def getSuggestionName : Suggestion → String
  | .station station => station.name
  | .address address => getAddressStr address
  | .position pos => getPositionStr core pos

/-- `List.Extra.uniqueBy` -/
def uniqueBy {α : Type} (f : α → String) (existing : List String) : List α → List α
  | [] => []
  | first :: rest =>
    if f first ∈ existing then uniqueBy f existing rest
    else first :: uniqueBy f (f first :: existing) rest

def filterAddressSuggestions (suggestions : List Address) : List Address :=
  uniqueBy getAddressStr [] suggestions

/-! ### The widget -/

structure Model (core : Core) where
  stationSuggestions : List Station
  addressSuggestions : List Address
  positionSuggestions : List Position
  suggestions : List Suggestion
  input : String
  hoverIndex : ℤ
  selectedSuggestion : Option Suggestion
  visible : Bool
  inputWidget : Bool
  remoteAddress : String
  debounce : core.debounce.State

inductive Msg (core : Core) where
  | noOp
  | stationSuggestionsResponse (suggestions : List Station)
  | stationSuggestionsError (err : String)
  | addressSuggestionsResponse (guesses : List Address)
  | addressSuggestionsError (err : String)
  | positionSuggestionsResponse (maybePos : Option Position)
  | inputChange (str : String)
  | setText (str : String)
  | enterSelection
  | clickElement (i : ℤ)
  | selectionUp
  | selectionDown
  | select (index : ℤ)
  | hide
  | inputUpdate (msg : InputMsg)
  | deb (a : core.debounce.Msg)
  | requestSuggestions
  | itemSelected
  | empty

inductive Cmd (core : Core) where
  /-- The requests for stations and addresses, and the text as a position. -/
  | requestSuggestions (remoteAddress input : String) (position : Option Position)
  | debounceCmd (msg : Msg core)
  | perform (msg : Msg core)
  | debounce (cmd : core.debounce.Cmd)

variable (core) in
def parsePosition (input : String) : Option Position :=
  match (input.splitOn ";").map core.toFloat with
  | [some lat, some lng] => some ⟨lat, lng⟩
  | _ => none

variable (core) in
def requestSuggestions (remoteAddress input : String) : Cmd core :=
  .requestSuggestions remoteAddress input (parsePosition core input)

variable (core) in
def init (remoteAddress initialValue : String) : Model core × List (Cmd core) :=
  let suggestion := core.decodeSuggestion initialValue
  let inputText := (suggestion.map (getSuggestionName core)).getD initialValue
  ({ suggestions := []
     stationSuggestions := []
     addressSuggestions := []
     positionSuggestions := []
     input := inputText
     hoverIndex := 0
     selectedSuggestion := suggestion
     visible := false
     inputWidget := false
     remoteAddress := remoteAddress
     debounce := core.debounce.init },
    if inputText.isEmpty then [] else [requestSuggestions core remoteAddress inputText])

/-- `%`, which throws for a divisor of zero. -/
def mod (a b : ℤ) : Except String ℤ :=
  if b = 0 then .error "Cannot perform mod 0. Division by zero error." else .ok (a % b)

namespace Model

variable (model : Model core)

def getSuggestionByName (rawInput : String) : Option Suggestion :=
  (model.suggestions.filter fun entry =>
    core.toLower (getSuggestionName core entry) = core.toLower (JsString.trim rawInput)).head?

def getEntryName (idx : ℤ) : String :=
  ((elementAt model.suggestions idx).map (getSuggestionName core)).getD ""

/-- The suggestions of all sources. -/
def allSuggestions : List Suggestion :=
  model.positionSuggestions.map .position ++ model.stationSuggestions.map .station ++
    model.addressSuggestions.map .address

def updateSuggestions : Model core :=
  let model1 := { model with suggestions := model.allSuggestions }
  match model1.selectedSuggestion with
  | none => { model1 with selectedSuggestion := model1.getSuggestionByName model1.input }
  | some _ => model1

def update : Msg core → Except String (Model core × List (Cmd core))
  | .noOp | .empty | .itemSelected => .ok (model, [])
  | .stationSuggestionsResponse suggestions =>
    .ok (updateSuggestions { model with stationSuggestions := suggestions }, [])
  | .stationSuggestionsError _ =>
    .ok (updateSuggestions { model with stationSuggestions := [] }, [])
  | .addressSuggestionsResponse guesses =>
    .ok (updateSuggestions { model with addressSuggestions := filterAddressSuggestions guesses }, [])
  | .addressSuggestionsError _ =>
    .ok (updateSuggestions { model with addressSuggestions := [] }, [])
  | .positionSuggestionsResponse maybePos =>
    .ok (updateSuggestions { model with positionSuggestions := maybePos.toList }, [])
  | .inputChange str =>
    .ok ({ model with
      input := str
      visible := true
      selectedSuggestion := model.getSuggestionByName str }, [.debounceCmd .requestSuggestions])
  | .setText str =>
    .ok ({ model with
      input := str
      visible := false
      selectedSuggestion := model.getSuggestionByName str }, [.debounceCmd .requestSuggestions])
  | .enterSelection =>
    .ok ({ model with
      visible := false
      input := model.getEntryName model.hoverIndex
      selectedSuggestion := elementAt model.suggestions model.hoverIndex },
      [.debounceCmd .requestSuggestions, .perform .itemSelected])
  | .clickElement i =>
    .ok ({ model with
      visible := false
      hoverIndex := 0
      input := model.getEntryName i
      selectedSuggestion := elementAt model.suggestions i },
      [.debounceCmd .requestSuggestions, .perform .itemSelected])
  | .selectionUp => do
    let hoverIndex ← mod (model.hoverIndex - 1) model.suggestions.length
    return ({ model with hoverIndex }, [])
  | .selectionDown => do
    let hoverIndex ← mod (model.hoverIndex + 1) model.suggestions.length
    return ({ model with hoverIndex }, [])
  | .select index => .ok ({ model with hoverIndex := index }, [])
  | .hide =>
    .ok ({ model with visible := false, hoverIndex := 0 },
      if model.input.isEmpty then [.perform .empty] else [])
  | .inputUpdate msg =>
    let updated := match msg with
      | .focus | .click => { model with visible := true }
      | .blur => { model with visible := false, hoverIndex := 0 }
    .ok ({ updated with inputWidget := inputUpdate msg model.inputWidget },
      if !updated.visible && updated.input.isEmpty then [.perform .empty] else [])
  | .deb a =>
    let (debounce, cmd) := core.debounce.update a model.debounce
    .ok ({ model with debounce }, [.debounce cmd])
  | .requestSuggestions =>
    .ok (model, if JsString.length model.input > 2 then
      [requestSuggestions core model.remoteAddress model.input] else [])

/-- The entry that `proposalView` highlights. -/
def highlighted : Option Suggestion :=
  if model.hoverIndex < 0 then none else model.suggestions[model.hoverIndex.toNat]?

/-- An update that throws leaves the model as it is. -/
def step (msg : Msg core) : Model core :=
  match model.update msg with
  | .ok (model', _) => model'
  | .error _ => model

end Model

/-- The messages come in any order. -/
def typeahead (core : Core) : System (Model core) (Msg core) where
  enabled _ _ := True
  step := Model.step

section Update

variable {s : Model core}

/-- The answers of the sources. -/
def Msg.isAnswer : Msg core → Bool
  | .stationSuggestionsResponse _ | .stationSuggestionsError _ | .addressSuggestionsResponse _
  | .addressSuggestionsError _ | .positionSuggestionsResponse _ => true
  | _ => false

/-- The model with what an answer brings. -/
def Model.answered (s : Model core) : Msg core → Model core
  | .stationSuggestionsResponse suggestions => { s with stationSuggestions := suggestions }
  | .stationSuggestionsError _ => { s with stationSuggestions := [] }
  | .addressSuggestionsResponse guesses =>
    { s with addressSuggestions := filterAddressSuggestions guesses }
  | .addressSuggestionsError _ => { s with addressSuggestions := [] }
  | .positionSuggestionsResponse maybePos => { s with positionSuggestions := maybePos.toList }
  | _ => s

theorem update_answer {msg : Msg core} (h : msg.isAnswer = true) :
    s.update msg = .ok ((s.answered msg).updateSuggestions, []) := by
  cases msg with
  | stationSuggestionsResponse _ | stationSuggestionsError _ | addressSuggestionsResponse _
  | addressSuggestionsError _ | positionSuggestionsResponse _ => rfl
  | _ => cases h

theorem step_answer {msg : Msg core} (h : msg.isAnswer = true) :
    s.step msg = (s.answered msg).updateSuggestions := by
  rw [Model.step, update_answer h]

@[simp] theorem hoverIndex_answered (msg : Msg core) :
    (s.answered msg).hoverIndex = s.hoverIndex := by
  cases msg <;> rfl

@[simp] theorem input_answered (msg : Msg core) : (s.answered msg).input = s.input := by
  cases msg <;> rfl

@[simp] theorem selectedSuggestion_answered (msg : Msg core) :
    (s.answered msg).selectedSuggestion = s.selectedSuggestion := by
  cases msg <;> rfl

theorem updateSuggestions_eq : s.updateSuggestions = { s with
    suggestions := s.allSuggestions
    selectedSuggestion := s.selectedSuggestion.or
      ({ s with suggestions := s.allSuggestions }.getSuggestionByName s.input) } := by
  rw [Model.updateSuggestions]
  cases h : s.selectedSuggestion <;> simp

/-! ### The highlighted suggestion -/

/-- An index of the list, when there is one. -/
def InRange (index : ℤ) (suggestions : List Suggestion) : Prop :=
  suggestions ≠ [] → 0 ≤ index ∧ index < suggestions.length

def HoverValid (s : Model core) : Prop := InRange s.hoverIndex s.suggestions

/-- The update does not throw, and enter selects what is highlighted. -/
def Confirms (s : Model core) (msg : Msg core) : Prop :=
  (∃ r, s.update msg = .ok r) ∧ (msg = .enterSelection → s.suggestions ≠ [] →
    ∃ suggestion, s.highlighted = some suggestion ∧
      (s.step msg).selectedSuggestion = some suggestion ∧
      (s.step msg).input = getSuggestionName core suggestion)

/-- Keys are pressed while there are suggestions, the mouse is over one of them, and an answer
    leaves none or more of them than the index. -/
def Careful (s : Model core) : Msg core → Prop
  | .selectionUp | .selectionDown => s.suggestions ≠ []
  | .select index => InRange index s.suggestions
  | msg => msg.isAnswer = true → InRange s.hoverIndex (s.answered msg).allSuggestions

theorem elementAt_hoverIndex (h : HoverValid s) (hne : s.suggestions ≠ []) :
    ∃ suggestion, s.highlighted = some suggestion ∧
      elementAt s.suggestions s.hoverIndex = some suggestion := by
  obtain ⟨hlo, hhi⟩ := h hne
  have hlt : s.hoverIndex.toNat < s.suggestions.length := by omega
  refine ⟨s.suggestions[s.hoverIndex.toNat], ?_, ?_⟩
  · rw [Model.highlighted, if_neg (by omega), List.getElem?_eq_getElem hlt]
  · rw [elementAt, List.head?_drop, List.getElem?_eq_getElem hlt]

theorem inRange_mod {suggestions : List Suggestion} (hne : suggestions ≠ []) (i : ℤ) :
    mod i suggestions.length = .ok (i % suggestions.length) ∧
      InRange (i % suggestions.length) suggestions := by
  have hpos := List.length_pos_iff.mpr hne
  have hne' : (suggestions.length : ℤ) ≠ 0 := by omega
  exact ⟨if_neg hne', fun _ => ⟨Int.emod_nonneg _ hne', Int.emod_lt_of_pos _ (by omega)⟩⟩

theorem inRange_zero (suggestions : List Suggestion) : InRange 0 suggestions := by
  intro hne
  have hpos := List.length_pos_iff.mpr hne
  omega

/-- The keys up and down. -/
inductive IsKey (s : Model core) : Msg core → ℤ → Prop where
  | up : IsKey s .selectionUp (s.hoverIndex - 1)
  | down : IsKey s .selectionDown (s.hoverIndex + 1)

theorem update_key {msg : Msg core} {i : ℤ} (h : IsKey s msg i) :
    s.update msg = (mod i s.suggestions.length).map fun hoverIndex => ({ s with hoverIndex }, []) := by
  cases h with
  | up =>
    rw [Model.update]
    cases mod (s.hoverIndex - 1) s.suggestions.length <;> rfl
  | down =>
    rw [Model.update]
    cases mod (s.hoverIndex + 1) s.suggestions.length <;> rfl

theorem valid_key {msg : Msg core} {i : ℤ} (h : IsKey s msg i) (hne : s.suggestions ≠ []) :
    HoverValid (s.step msg) ∧ Confirms s msg := by
  obtain ⟨hmod, hrange⟩ := inRange_mod hne i
  have hupdate := update_key h
  rw [hmod] at hupdate
  refine ⟨?_, ⟨_, hupdate⟩, ?_⟩
  · rw [Model.step, hupdate]
    exact hrange
  · rintro rfl
    cases h

theorem suggestions_ne_nil_of_confirms {msg : Msg core} {i : ℤ} (h : IsKey s msg i)
    (hconfirms : Confirms s msg) : s.suggestions ≠ [] := by
  intro hnil
  obtain ⟨⟨r, hr⟩, -⟩ := hconfirms
  rw [update_key h, hnil] at hr
  cases hr

theorem valid_answer {msg : Msg core} (h : msg.isAnswer = true) :
    (HoverValid (s.step msg) ↔ InRange s.hoverIndex (s.answered msg).allSuggestions) ∧
      Confirms s msg := by
  refine ⟨?_, ⟨_, update_answer h⟩, ?_⟩
  · rw [step_answer h, updateSuggestions_eq, HoverValid, hoverIndex_answered]
  · rintro rfl
    cases h

/-- Enter selects the highlighted suggestion. -/
theorem confirms_enter (h : HoverValid s) : Confirms s .enterSelection := by
  refine ⟨⟨_, rfl⟩, fun _ hne => ?_⟩
  obtain ⟨suggestion, hhighlighted, helement⟩ := elementAt_hoverIndex h hne
  refine ⟨suggestion, hhighlighted, helement, ?_⟩
  change s.getEntryName s.hoverIndex = _
  rw [Model.getEntryName, helement]
  rfl

theorem valid_and_confirms (h : HoverValid s) {msg : Msg core} (hcareful : Careful s msg) :
    HoverValid (s.step msg) ∧ Confirms s msg := by
  cases msg with
  | stationSuggestionsResponse _ | stationSuggestionsError _ | addressSuggestionsResponse _
  | addressSuggestionsError _ | positionSuggestionsResponse _ =>
    exact ⟨(valid_answer rfl).1.mpr (hcareful rfl), (valid_answer rfl).2⟩
  | selectionUp => exact valid_key .up hcareful
  | selectionDown => exact valid_key .down hcareful
  | select index => exact ⟨hcareful, ⟨_, rfl⟩, nofun⟩
  | enterSelection => exact ⟨h, confirms_enter h⟩
  | clickElement _ | hide => exact ⟨inRange_zero _, ⟨_, rfl⟩, nofun⟩
  | inputUpdate msg =>
    refine ⟨?_, ⟨_, rfl⟩, nofun⟩
    cases msg with
    | focus | click => exact h
    | blur => exact inRange_zero _
  | _ => exact ⟨h, ⟨_, rfl⟩, nofun⟩

theorem careful_of_valid {msg : Msg core} (h : HoverValid (s.step msg))
    (hconfirms : Confirms s msg) : Careful s msg := by
  cases msg with
  | stationSuggestionsResponse _ | stationSuggestionsError _ | addressSuggestionsResponse _
  | addressSuggestionsError _ | positionSuggestionsResponse _ =>
    exact fun _ => (valid_answer rfl).1.mp h
  | selectionUp => exact suggestions_ne_nil_of_confirms .up hconfirms
  | selectionDown => exact suggestions_ne_nil_of_confirms .down hconfirms
  | select index => exact h
  | _ => exact nofun

end Update

/-! ### Runs -/

variable (core) in
/-- CORRECT: the index stays one of the list and no update throws exactly in careful runs. -/
theorem hoverIndex_valid_iff (remoteAddress initialValue : String) (msgs : List (Msg core)) :
    (Always (typeahead core) HoverValid (init core remoteAddress initialValue).1 msgs ∧
      Each (typeahead core) Confirms (init core remoteAddress initialValue).1 msgs) ↔
    Each (typeahead core) Careful (init core remoteAddress initialValue).1 msgs :=
  always_and_each_iff (fun _ _ h _ hcareful => (valid_and_confirms h hcareful).1)
    (fun _ h => h)
    (fun _ _ h _ hcareful => (valid_and_confirms h hcareful).2)
    (fun _ _ _ _ h hconfirms => careful_of_valid h hconfirms)
    (fun hne => absurd rfl hne) (feasible_of_enabled fun _ _ => trivial)

/-- Lower case texts, no numbers, nothing stored, and requests at once. -/
def plainCore : Core where
  floatToString _ := ""
  toFloat _ := none
  toLower s := s
  toLower_trim _ := rfl
  decodeSuggestion _ := none
  debounce := .immediate

def stop (name : String) : Station := ⟨name, name, 0, 0⟩

/-- A key before the first answer, and one suggestion in place of two after the mouse was over the
    second one. -/
theorem not_valid_noSuggestions :
    ¬ Each (typeahead plainCore) Confirms (init plainCore "" "").1 [.selectionDown] ∧
    ¬ Always (typeahead plainCore) HoverValid (init plainCore "" "").1
      [.stationSuggestionsResponse [stop "a", stop "b"], .select 1,
        .stationSuggestionsResponse [stop "a"]] := by
  constructor
  · rintro ⟨⟨⟨r, hr⟩, -⟩, -⟩
    cases hr
  · intro halways
    obtain ⟨-, hlt⟩ := halways.last (List.cons_ne_nil _ _)
    exact absurd hlt (by decide)

/-! ### The selected suggestion and the text -/

section Selection

variable {s : Model core}

variable (core) in
/-- Equal up to case and surrounding white space. -/
def SameText (a b : String) : Prop :=
  core.toLower (JsString.trim a) = core.toLower (JsString.trim b)

def Matches (s : Model core) : Prop :=
  ∀ suggestion, s.selectedSuggestion = some suggestion →
    SameText core (getSuggestionName core suggestion) s.input

theorem sameText_of_toLower {a b : String} (h : core.toLower a = core.toLower (JsString.trim b)) :
    SameText core a b := by
  rw [SameText, core.toLower_trim a, h, ← core.toLower_trim, JsString.trim_trim]

theorem sameText_of_getSuggestionByName {input : String} {suggestion : Suggestion}
    (h : s.getSuggestionByName input = some suggestion) :
    SameText core (getSuggestionName core suggestion) input := by
  have hmem := List.mem_of_mem_head? h
  exact sameText_of_toLower (of_decide_eq_true (List.mem_filter.mp hmem).2)

/-- The name of an entry is what `getEntryName` gives. -/
theorem sameText_of_elementAt {i : ℤ} {suggestion : Suggestion}
    (h : elementAt s.suggestions i = some suggestion) :
    SameText core (getSuggestionName core suggestion) (s.getEntryName i) := by
  rw [Model.getEntryName, h]
  rfl

/-- An answer fills in a missing selection by name. -/
theorem matches_updateSuggestions (h : Matches s) : Matches s.updateSuggestions := by
  rw [updateSuggestions_eq]
  intro suggestion hselected
  rcases Option.or_eq_some_iff.mp hselected with hold | ⟨-, hnew⟩
  · exact h suggestion hold
  · exact sameText_of_getSuggestionByName hnew

theorem matches_answered (h : Matches s) (msg : Msg core) : Matches (s.answered msg) := by
  intro suggestion hselected
  rw [selectedSuggestion_answered] at hselected
  rw [input_answered]
  exact h suggestion hselected

theorem matches_key {msg : Msg core} {i : ℤ} (hkey : IsKey s msg i) (h : Matches s) :
    Matches (s.step msg) := by
  rw [Model.step, update_key hkey]
  cases mod i s.suggestions.length with
  | error _ => exact h
  | ok _ => exact h

theorem matches_step (h : Matches s) (msg : Msg core) : Matches (s.step msg) := by
  cases msg with
  | stationSuggestionsResponse _ | stationSuggestionsError _ | addressSuggestionsResponse _
  | addressSuggestionsError _ | positionSuggestionsResponse _ =>
    rw [step_answer rfl]
    exact matches_updateSuggestions (matches_answered h _)
  | inputChange _ | setText _ => exact fun _ => sameText_of_getSuggestionByName
  | enterSelection | clickElement _ => exact fun _ => sameText_of_elementAt
  | selectionUp => exact matches_key .up h
  | selectionDown => exact matches_key .down h
  | inputUpdate msg => cases msg <;> exact h
  | _ => exact h

/-- A restored selection gives the text. -/
theorem matches_init (remoteAddress initialValue : String) :
    Matches (init core remoteAddress initialValue).1 := by
  intro suggestion hselected
  simp only [init] at hselected ⊢
  rw [hselected]
  rfl

end Selection

variable (core) in
/-- CORRECT: what is selected is always named by the text. -/
theorem selectedSuggestion_matches (remoteAddress initialValue : String) (msgs : List (Msg core)) :
    Always (typeahead core) Matches (init core remoteAddress initialValue).1 msgs :=
  always_of_inductive (fun _ msg h _ => matches_step h msg) (matches_init remoteAddress initialValue)
    (feasible_of_enabled fun _ _ => trivial)

end Motis.Ui.Typeahead
