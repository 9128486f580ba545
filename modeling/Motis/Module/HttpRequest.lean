import Mathlib.Algebra.GroupWithZero.Nat
import Mathlib.Algebra.Order.Ring.Unbundled.Rat
import Motis.Lib.Runs

/-! Following the redirects of HTTP requests.

    An answer with a `location` header leads to a request for what it names, any other answer
    completes the future:

        request ──▶ response ──────────────────────▶ set
           ▲            │ location
           └─ redirect ◀┘        fifth redirect ──▶ set, and goes on

    The client library calls the handler of a query once. What the libraries for addresses do is a
    parameter. -/

namespace Motis.Module.HttpRequest
open Runs

def kMaxRedirects : ℕ := 3

/-- The address types of the client and of the URL library. -/
structure UrlLibrary where
  Url : Type
  port : Url → String
  useHttps : Url → Bool
  useHttp : Url → Bool
  /-- The URL a reference denotes at a base; `none`: one of the constructors throws. -/
  resolve : Url → String → Option Url

structure Request (lib : UrlLibrary) where
  address : lib.Url
  headers : List (String × String) := []

structure Response where
  headers : List (String × String)
  body : String
  deriving DecidableEq, Repr

/-- What the handler of a query is called with. -/
inductive QueryResult where
  | failed (ec : String)
  | response (res : Response)
  deriving DecidableEq, Repr

/-- What the future is set to. -/
inductive Completion where
  | systemError (ec : String)
  | fail (text : String)
  | response (res : Response)
  deriving DecidableEq, Repr

variable {lib : UrlLibrary}

structure HttpRequestExecutor (lib : UrlLibrary) where
  redirectCount : ℕ := 0
  requestUrl : lib.Url
  /-- The calls of `f_->set`. -/
  completions : List Completion := []
  queries : List (Request lib) := []
  /-- A query is waiting for its handler. -/
  waiting : Bool := false

namespace HttpRequestExecutor

def set (s : HttpRequestExecutor lib) (completion : Completion) : HttpRequestExecutor lib :=
  { s with completions := s.completions ++ [completion] }

def query (s : HttpRequestExecutor lib) (req : Request lib) : HttpRequestExecutor lib :=
  { s with queries := s.queries ++ [req], waiting := true }

def makeRequest (s : HttpRequestExecutor lib) (req : Request lib) : HttpRequestExecutor lib :=
  let s := { s with requestUrl := req.address }
  let req := { req with headers := ("Accept-Encoding", "gzip") :: req.headers }
  if lib.useHttps req.address then s.query req
  else if lib.useHttp req.address then s.query req
  else s.set (.fail s!"unexpected port {lib.port req.address} (not https or http)")

def redirect (s : HttpRequestExecutor lib) (target : String) : HttpRequestExecutor lib :=
  let s := if s.redirectCount > kMaxRedirects then s.set (.fail "too many redirects") else s
  match lib.resolve s.requestUrl target with
  -- the exception leaves the handler
  | none => s
  | some resolvedUrl =>
    { s with redirectCount := (s.redirectCount + 1) % 2 ^ 32 }.makeRequest { address := resolvedUrl }

def onResponse (s : HttpRequestExecutor lib) (result : QueryResult) : HttpRequestExecutor lib :=
  let s := { s with waiting := false }
  match result with
  | .failed ec => s.set (.systemError ec)
  | .response res =>
    match res.headers.lookup "location" with
    | some target => s.redirect target
    | none => s.set (.response res)

end HttpRequestExecutor

open HttpRequestExecutor

def makeHttpReq (req : Request lib) : HttpRequestExecutor lib :=
  { requestUrl := req.address : HttpRequestExecutor lib }.makeRequest req

def executor (lib : UrlLibrary) : System (HttpRequestExecutor lib) QueryResult where
  enabled s _ := s.waiting = true
  step := onResponse

/-! ### What is asked for -/

/-- The requests after the first one. -/
def followUps (s : HttpRequestExecutor lib) : ℕ := s.queries.length - 1

/-- The future is set once, by the end, and there are not too many requests. -/
structure Bounded (s : HttpRequestExecutor lib) : Prop where
  followUps_le : followUps s ≤ kMaxRedirects + 1
  completed : s.completions.length = if s.waiting then 0 else 1

/-- An answer has the right effect: it is followed, or it completes the future and ends the
    requests. -/
def Handled (s : HttpRequestExecutor lib) (result : QueryResult) : Prop :=
  let s' := s.onResponse result
  match result with
  | .failed ec => s'.completions = s.completions ++ [.systemError ec] ∧ s'.queries = s.queries
  | .response res =>
    match res.headers.lookup "location" with
    | none => s'.completions = s.completions ++ [.response res] ∧ s'.queries = s.queries
    | some _ =>
      if followUps s ≤ kMaxRedirects then
        (s'.completions = s.completions ∧ s'.queries.length = s.queries.length + 1) ∨
          ∃ text, s'.completions = s.completions ++ [.fail text] ∧ s'.queries = s.queries
      else s'.completions = s.completions ++ [.fail "too many redirects"] ∧ s'.queries = s.queries

/-- A redirect that is followed names a URL, and one too many does not. -/
def Followable (s : HttpRequestExecutor lib) (result : QueryResult) : Prop :=
  ∀ res, result = .response res → ∀ target, res.headers.lookup "location" = some target →
    (followUps s ≤ kMaxRedirects ↔ (lib.resolve s.requestUrl target).isSome = true)

/-! ### One answer -/

theorem makeRequest_cases (s : HttpRequestExecutor lib) (req : Request lib) :
    (∃ q, s.makeRequest req = { s with
      requestUrl := req.address, queries := s.queries ++ [q], waiting := true }) ∨
    ∃ text, s.makeRequest req = { s with
      requestUrl := req.address, completions := s.completions ++ [.fail text] } := by
  rw [makeRequest]
  split_ifs
  · exact .inl ⟨_, rfl⟩
  · exact .inl ⟨_, rfl⟩
  · exact .inr ⟨_, rfl⟩

/-- No request completes a future that is set already. -/
theorem makeRequest_of_completed {s : HttpRequestExecutor lib} (hset : s.completions ≠ [])
    {req : Request lib} :
    (s.makeRequest req).completions.length ≠ if (s.makeRequest req).waiting then 0 else 1 := by
  have hpos := List.length_pos_iff.mpr hset
  rcases makeRequest_cases s req with ⟨q, heq⟩ | ⟨text, heq⟩
  · rw [heq, if_pos rfl]
    exact Nat.ne_of_gt hpos
  · rw [heq, List.length_append, List.length_singleton]
    split_ifs
    · exact Nat.succ_ne_zero _
    · exact Nat.ne_of_gt (Nat.succ_lt_succ hpos)

/-- What holds between the answers. -/
structure Sound (s : HttpRequestExecutor lib) : Prop extends Bounded s where
  queries_eq : s.waiting = true → s.queries.length = s.redirectCount + 1

theorem Sound.followUps_eq {s : HttpRequestExecutor lib} (h : Sound s) (hwaiting : s.waiting = true) :
    followUps s = s.redirectCount := by
  rw [followUps, h.queries_eq hwaiting, Nat.add_sub_cancel]

theorem Sound.completions_eq {s : HttpRequestExecutor lib} (h : Sound s)
    (hwaiting : s.waiting = true) : s.completions = [] := by
  have hcompleted := h.completed
  rw [if_pos hwaiting] at hcompleted
  exact List.eq_nil_of_length_eq_zero hcompleted

theorem sound_makeHttpReq (req : Request lib) : Sound (makeHttpReq req) := by
  rcases makeRequest_cases ({ requestUrl := req.address : HttpRequestExecutor lib }) req with
    ⟨q, heq⟩ | ⟨text, heq⟩
  · rw [makeHttpReq, heq]
    exact { followUps_le := Nat.zero_le _, completed := rfl, queries_eq := fun _ => rfl }
  · rw [makeHttpReq, heq]
    exact { followUps_le := Nat.zero_le _, completed := rfl, queries_eq := nofun }

section Answer

variable {s : HttpRequestExecutor lib}

theorem onResponse_location {res : Response} {target : String}
    (hloc : res.headers.lookup "location" = some target) :
    s.onResponse (.response res) = { s with waiting := false }.redirect target := by
  simp only [onResponse, hloc]

theorem onResponse_final {res : Response} (hloc : res.headers.lookup "location" = none) :
    s.onResponse (.response res) = { s with waiting := false }.set (.response res) := by
  simp only [onResponse, hloc]

theorem redirect_within (hcount : s.redirectCount ≤ kMaxRedirects) {target : String} :
    s.redirect target = match lib.resolve s.requestUrl target with
      | none => s
      | some url => { s with redirectCount := s.redirectCount + 1 }.makeRequest { address := url } := by
  have hwrap : (s.redirectCount + 1) % 2 ^ 32 = s.redirectCount + 1 := by
    rw [kMaxRedirects] at hcount
    omega
  rw [redirect, if_neg (Nat.not_lt.mpr hcount), hwrap]

theorem redirect_beyond (hcount : ¬ s.redirectCount ≤ kMaxRedirects) {target : String} :
    s.redirect target = match lib.resolve s.requestUrl target with
      | none => s.set (.fail "too many redirects")
      | some url => { s.set (.fail "too many redirects") with
          redirectCount := (s.redirectCount + 1) % 2 ^ 32 }.makeRequest { address := url } := by
  rw [redirect, if_pos (Nat.lt_of_not_le hcount)]
  rfl

/-- An answer that completes the future ends the requests. -/
theorem sound_set (h : Sound s) (hwaiting : s.waiting = true) (completion : Completion) :
    Sound ({ s with waiting := false }.set completion) where
  followUps_le := h.followUps_le
  completed := by
    change (s.completions ++ [completion]).length = 1
    rw [h.completions_eq hwaiting]
    rfl
  queries_eq := nofun

/-- A redirect within the limit is followed by one request, or there is no request for it. -/
theorem follow_within (h : Sound s) (hwaiting : s.waiting = true)
    (hcount : s.redirectCount ≤ kMaxRedirects) {target : String} {url : lib.Url}
    (hurl : lib.resolve s.requestUrl target = some url) :
    let s' := { s with waiting := false }.redirect target
    Sound s' ∧ ((s'.completions = s.completions ∧ s'.queries.length = s.queries.length + 1) ∨
      ∃ text, s'.completions = s.completions ++ [.fail text] ∧ s'.queries = s.queries) := by
  intro s'
  have hs' : s' = { s with
      waiting := false, redirectCount := s.redirectCount + 1 }.makeRequest { address := url } := by
    simp only [s', redirect_within (s := { s with waiting := false }) hcount, hurl]
  have hlength := h.queries_eq hwaiting
  rcases makeRequest_cases _ _ with ⟨q, heq⟩ | ⟨text, heq⟩
  · rw [hs', heq]
    refine ⟨⟨⟨?_, ?_⟩, fun _ => ?_⟩, .inl ⟨rfl, List.length_append⟩⟩
    · rw [followUps, List.length_append, hlength]
      exact Nat.succ_le_succ hcount
    · rw [if_pos rfl, h.completions_eq hwaiting]
      rfl
    · rw [List.length_append, hlength]
      rfl
  · rw [hs', heq]
    refine ⟨⟨⟨h.followUps_le, ?_⟩, nofun⟩, .inr ⟨text, rfl, rfl⟩⟩
    rw [h.completions_eq hwaiting]
    rfl

/-- What the steps of a run keep. -/
theorem sound_and_handled (h : Sound s) (hwaiting : s.waiting = true) {result : QueryResult}
    (hfollow : Followable s result) : Sound (s.onResponse result) ∧ Handled s result := by
  cases result with
  | failed ec => exact ⟨sound_set h hwaiting _, rfl, rfl⟩
  | response res =>
    rw [Handled]
    cases hloc : res.headers.lookup "location" with
    | none =>
      rw [onResponse_final hloc]
      exact ⟨sound_set h hwaiting _, rfl, rfl⟩
    | some target =>
      have hiff := hfollow res rfl target hloc
      rw [onResponse_location hloc]
      by_cases hcount : followUps s ≤ kMaxRedirects
      · obtain ⟨url, hurl⟩ := Option.isSome_iff_exists.mp (hiff.mp hcount)
        simp only [if_pos hcount]
        rw [h.followUps_eq hwaiting] at hcount
        exact follow_within h hwaiting hcount hurl
      · have hnone := Option.not_isSome_iff_eq_none.mp (mt hiff.mpr hcount)
        simp only [if_neg hcount]
        rw [h.followUps_eq hwaiting] at hcount
        have hset : { s with waiting := false }.redirect target =
            { s with waiting := false }.set (.fail "too many redirects") := by
          rw [redirect_beyond (s := { s with waiting := false }) hcount, hnone]
        rw [hset]
        exact ⟨sound_set h hwaiting _, rfl, rfl⟩

/-- A redirect that is not followable leaves the future unset, or goes on after it was set. -/
theorem followable_of_bounded (h : Sound s) (hwaiting : s.waiting = true) {result : QueryResult}
    (hbounded : Bounded (s.onResponse result)) : Followable s result := by
  rintro res rfl target hloc
  rw [onResponse_location hloc] at hbounded
  have hcompleted := hbounded.completed
  have hempty := h.completions_eq hwaiting
  rw [h.followUps_eq hwaiting]
  by_cases hcount : s.redirectCount ≤ kMaxRedirects
  · refine iff_of_true hcount (Option.isSome_iff_ne_none.mpr fun hnone => ?_)
    rw [redirect_within (s := { s with waiting := false }) hcount, hnone, hempty] at hcompleted
    cases hcompleted
  · refine iff_of_false hcount fun hsome => ?_
    obtain ⟨url, hurl⟩ := Option.isSome_iff_exists.mp hsome
    rw [redirect_beyond (s := { s with waiting := false }) hcount, hurl] at hcompleted
    exact makeRequest_of_completed (List.append_ne_nil_of_right_ne_nil _ (List.cons_ne_nil _ _))
      hcompleted

end Answer

/-! ### Runs -/

/-- CORRECT: the future is set once, by the end, with few requests and for the right reason,
    exactly in the runs whose redirects are followable. -/
theorem completes_once_iff (req : Request lib) (results : List QueryResult)
    (hrun : Feasible (executor lib) (makeHttpReq req) results) :
    (Always (executor lib) Bounded (makeHttpReq req) results ∧
      Each (executor lib) Handled (makeHttpReq req) results) ↔
    Each (executor lib) Followable (makeHttpReq req) results :=
  always_and_each_iff (fun _ _ h hwaiting hfollow => (sound_and_handled h hwaiting hfollow).1)
    (fun _ h => h.toBounded)
    (fun _ _ h hwaiting hfollow => (sound_and_handled h hwaiting hfollow).2)
    (fun _ _ h hwaiting hbounded _ => followable_of_bounded h hwaiting hbounded)
    (sound_makeHttpReq req) hrun

/-- Absolute `https` addresses. -/
def plainUrls : UrlLibrary where
  Url := String
  port _ := "443"
  useHttps _ := true
  useHttp _ := false
  resolve _ target := some target

def moved : QueryResult := .response ⟨[("location", "https://example.com/")], ""⟩

/-- A page that redirects to itself is requested a sixth time, after the future was set. -/
theorem not_bounded_redirectLoop :
    Feasible (executor plainUrls) (makeHttpReq ⟨"https://example.com/", []⟩)
        (List.replicate 5 moved) ∧
      ¬ Always (executor plainUrls) Bounded (makeHttpReq ⟨"https://example.com/", []⟩)
        (List.replicate 5 moved) := by
  refine ⟨⟨rfl, rfl, rfl, rfl, rfl, trivial⟩, fun halways => ?_⟩
  have hcompleted := halways.last.completed
  cases hcompleted

theorem completes_once_iff_moved :
    Each (executor plainUrls) Handled (makeHttpReq ⟨"https://example.com/", []⟩)
      [moved, .response ⟨[], "text"⟩] := by
  have hrun : Feasible (executor plainUrls) (makeHttpReq ⟨"https://example.com/", []⟩)
      [moved, .response ⟨[], "text"⟩] := ⟨rfl, rfl, trivial⟩
  refine ((completes_once_iff _ _ hrun).mpr ⟨?_, ?_, trivial⟩).2
  · rintro res - target -
    exact iff_of_true (Nat.zero_le _) rfl
  · rintro res h target hloc
    cases h
    cases hloc

end Motis.Module.HttpRequest
