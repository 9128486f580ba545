import Mathlib.Data.List.Nodup
import Motis.Module.EventCollector

/-! The join of the import events.

    While an operation has not run, its collector keeps for every requirement the last message that
    was accepted for it and waits for those without one. So it runs with the first message that
    leaves no requirement without one, with the messages kept, and never again. -/

namespace Motis.Module

variable {Msg : Type} {isSuccess : Msg → Bool}

/-! ### The last accepted message -/

/-- A message counts for a requirement: it is no dummy message and its matcher accepts it. -/
def Requirement.accepts (isSuccess : Msg → Bool) (req : Requirement Msg) (msg : Msg) : Bool :=
  !isSuccess msg && req.matcher msg

/-- The last message of a history that is accepted. -/
def lastAccepted (isSuccess : Msg → Bool) (req : Requirement Msg) (history : List Msg) :
    Option Msg :=
  history.reverse.find? (req.accepts isSuccess)

theorem lastAccepted_append (req : Requirement Msg) (history : List Msg) (msg : Msg) :
    lastAccepted isSuccess req (history ++ [msg]) =
      if req.accepts isSuccess msg then some msg else lastAccepted isSuccess req history := by
  rw [lastAccepted, List.reverse_append, List.reverse_singleton, List.singleton_append,
    List.find?_cons]
  cases req.accepts isSuccess msg <;> rfl

theorem lastAccepted_eq_none {req : Requirement Msg} {history : List Msg} :
    lastAccepted isSuccess req history = none ↔
      ∀ msg ∈ history, req.accepts isSuccess msg = false := by
  simp [lastAccepted]

/-- Every later message is rejected. -/
theorem lastAccepted_eq_some {req : Requirement Msg} {history : List Msg} {msg : Msg}
    (h : lastAccepted isSuccess req history = some msg) :
    req.accepts isSuccess msg = true ∧ ∃ earlier later, history = earlier ++ msg :: later ∧
      ∀ m ∈ later, req.accepts isSuccess m = false := by
  obtain ⟨hmsg, later, earlier, hsplit, hlater⟩ := List.find?_eq_some_iff_append.mp h
  refine ⟨hmsg, earlier.reverse, later.reverse, ?_, fun m hm => ?_⟩
  · have := congrArg List.reverse hsplit
    simpa using this
  · simpa using hlater m (List.mem_reverse.mp hm)

/-! ### One message -/

section Message
variable {s : CollectorSetup Msg} {c : EventCollector Msg} {history : List Msg} {msg : Msg}

/-- What is kept and what is waited for when each requirement has seen its own history. -/
structure Keeps (isSuccess : Msg → Bool) (s : CollectorSetup Msg)
    (seen : Requirement Msg → List Msg) (c : EventCollector Msg) : Prop where
  kept : ∀ req ∈ s.requirements,
    c.dependencies[req.name]? = lastAccepted isSuccess req (seen req)
  waiting : ∀ req ∈ s.requirements,
    req.name ∈ c.waitingFor ↔ lastAccepted isSuccess req (seen req) = none
  names : ∀ name, name ∈ c.dependencies ∨ name ∈ c.waitingFor →
    ∃ req ∈ s.requirements, req.name = name

/-- The operation has not run, and something is missing. -/
structure Pending (isSuccess : Msg → Bool) (s : CollectorSetup Msg)
    (seen : Requirement Msg → List Msg) (c : EventCollector Msg) : Prop where
  keeps : Keeps isSuccess s seen c
  executed : c.executed = false
  runs : c.runs = []
  missing : c.waitingFor ≠ ∅

/-- The operation has run once, when each requirement had seen some history of its own. -/
def Ran (isSuccess : Msg → Bool) (s : CollectorSetup Msg)
    (Seen : (Requirement Msg → List Msg) → Prop) (c : EventCollector Msg) : Prop :=
  c.executed = true ∧ ∃ seen, Seen seen ∧
    (∀ req ∈ s.requirements, lastAccepted isSuccess req (seen req) ≠ none) ∧
    ∃ deps, c.runs = [deps] ∧
      (∀ req ∈ s.requirements, deps[req.name]? = lastAccepted isSuccess req (seen req)) ∧
      ∀ name ∈ deps, ∃ req ∈ s.requirements, req.name = name

/-- An importer of a collector that has run does nothing. -/
theorem onMsg_executed {op : Dependencies Msg → List Msg} {req : Requirement Msg}
    (h : c.executed = true) : (c.onMsg isSuccess op req msg).1 = c := by
  rw [EventCollector.onMsg, if_pos h]
  split_ifs <;> rfl

theorem name_inj (s : CollectorSetup Msg) {req req' : Requirement Msg}
    (h : req ∈ s.requirements) (h' : req' ∈ s.requirements) (hname : req.name = req'.name) :
    req = req' :=
  List.inj_on_of_nodup_map s.distinct h h' hname

/-- The importer of a requirement that accepts the message keeps it and waits for it no longer. -/
theorem Keeps.accept {seen : Requirement Msg → List Msg} (h : Keeps isSuccess s seen c)
    {req : Requirement Msg} (hreq : req ∈ s.requirements)
    (haccepts : req.accepts isSuccess msg = true) :
    Keeps isSuccess s (fun req' => if req'.name = req.name then seen req' ++ [msg] else seen req')
      { c with
        dependencies := c.dependencies.insert req.name msg
        waitingFor := c.waitingFor.erase req.name } := by
  refine ⟨fun req' hreq' => ?_, fun req' hreq' => ?_, ?_⟩
  · rcases eq_or_ne req'.name req.name with hname | hname
    · obtain rfl := name_inj s hreq' hreq hname
      simp [lastAccepted_append, haccepts]
    · rw [if_neg hname, Std.TreeMap.getElem?_insert, ← h.kept req' hreq',
        if_neg fun heq => hname (Std.LawfulEqOrd.eq_of_compare heq).symm]
  · rcases eq_or_ne req'.name req.name with hname | hname
    · obtain rfl := name_inj s hreq' hreq hname
      simp [lastAccepted_append, haccepts]
    · rw [if_neg hname, ← h.waiting req' hreq']
      exact Finset.mem_erase.trans (and_iff_right hname)
  · rintro name (hname | hname)
    · rcases Std.TreeMap.mem_insert.mp hname with heq | hmem
      · exact ⟨req, hreq, Std.LawfulEqOrd.eq_of_compare heq⟩
      · exact h.names name (.inl hmem)
    · exact h.names name (.inr (Finset.mem_of_mem_erase hname))

/-- The importer of a requirement that rejects the message leaves everything as it is. -/
theorem Keeps.reject {seen : Requirement Msg → List Msg} (h : Keeps isSuccess s seen c)
    {req : Requirement Msg} (hreq : req ∈ s.requirements)
    (hrejects : req.accepts isSuccess msg = false) :
    Keeps isSuccess s (fun req' => if req'.name = req.name then seen req' ++ [msg] else seen req')
      c := by
  have hsame : ∀ req' ∈ s.requirements,
      lastAccepted isSuccess req' (if req'.name = req.name then seen req' ++ [msg] else seen req') =
        lastAccepted isSuccess req' (seen req') := by
    intro req' hreq'
    rcases eq_or_ne req'.name req.name with hname | hname
    · obtain rfl := name_inj s hreq' hreq hname
      simp [lastAccepted_append, hrejects]
    · rw [if_neg hname]
  refine ⟨fun req' hreq' => ?_, fun req' hreq' => ?_, h.names⟩
  · rw [hsame req' hreq']
    exact h.kept req' hreq'
  · rw [hsame req' hreq']
    exact h.waiting req' hreq'

/-- One importer: it lets its requirement see the message, and may run the operation. -/
theorem onMsg_spec {seen : Requirement Msg → List Msg} (h : Pending isSuccess s seen c)
    {req : Requirement Msg} (hreq : req ∈ s.requirements) (msg : Msg) :
    let seen' := fun req' : Requirement Msg =>
      if req'.name = req.name then seen req' ++ [msg] else seen req'
    Pending isSuccess s seen' (c.onMsg isSuccess s.op req msg).1 ∨
      Ran isSuccess s (· = seen') (c.onMsg isSuccess s.op req msg).1 := by
  intro seen'
  cases haccepts : req.accepts isSuccess msg with
  | false =>
    have hsame : (c.onMsg isSuccess s.op req msg).1 = c := by
      rw [Requirement.accepts] at haccepts
      rw [EventCollector.onMsg]
      cases hsuccess : isSuccess msg <;> simp_all
    rw [hsame]
    exact .inl ⟨h.keeps.reject hreq haccepts, h.executed, h.runs, h.missing⟩
  | true =>
    have hkeeps := h.keeps.accept hreq haccepts
    obtain ⟨hsuccess, hmatcher⟩ : isSuccess msg = false ∧ req.matcher msg = true := by
      simpa [Requirement.accepts] using haccepts
    rw [EventCollector.onMsg, if_neg (by simp [hsuccess]), if_neg (by simp [hmatcher]),
      if_neg (by simp [h.executed])]
    rcases eq_or_ne (c.waitingFor.erase req.name) (∅) with hmissing | hmissing
    · rw [if_neg (by simpa using hmissing)]
      refine .inr ⟨rfl, seen', rfl, fun req' hreq' => ?_, _, ?_, hkeeps.kept,
        fun name hname => hkeeps.names name (.inl hname)⟩
      · have hnot := mt (hkeeps.waiting req' hreq').mpr
        exact hnot (by simp [hmissing])
      · simp [h.runs]
    · rw [if_pos (by simpa using hmissing)]
      exact .inl ⟨hkeeps, h.executed, h.runs, hmissing⟩

theorem Keeps.congr {seen seen' : Requirement Msg → List Msg} (h : Keeps isSuccess s seen c)
    (heq : ∀ req ∈ s.requirements, seen req = seen' req) : Keeps isSuccess s seen' c := by
  refine ⟨fun req hreq => ?_, fun req hreq => ?_, h.names⟩
  · rw [← heq req hreq]
    exact h.kept req hreq
  · rw [← heq req hreq]
    exact h.waiting req hreq

theorem Ran.imp {Seen Seen' : (Requirement Msg → List Msg) → Prop} (h : Ran isSuccess s Seen c)
    (himp : ∀ seen, Seen seen → Seen' seen) : Ran isSuccess s Seen' c := by
  obtain ⟨hexecuted, seen, hseen, hrest⟩ := h
  exact ⟨hexecuted, seen, himp seen hseen, hrest⟩

theorem foldl_executed {op : Dependencies Msg → List Msg} (reqs : List (Requirement Msg))
    (h : c.executed = true) :
    reqs.foldl (fun c req => (c.onMsg isSuccess op req msg).1) c = c := by
  induction reqs with
  | nil => rfl
  | cons req reqs ih => rw [List.foldl_cons, onMsg_executed h, ih]

/-- Each requirement has seen the history before the message, or the message, too. -/
def SeenBy (s : CollectorSetup Msg) (history : List Msg) (msg : Msg)
    (seen : Requirement Msg → List Msg) : Prop :=
  ∀ req ∈ s.requirements, seen req = history ∨ seen req = history ++ [msg]

/-- The importers of the requirements `reqs`, after those of all others. -/
theorem foldl_spec {seen : Requirement Msg → List Msg} (reqs : List (Requirement Msg))
    (hreqs : ∀ req ∈ reqs, req ∈ s.requirements) (hnodup : (reqs.map (·.name)).Nodup)
    (hseen : ∀ req ∈ s.requirements,
      seen req = if req.name ∈ reqs.map (·.name) then history else history ++ [msg])
    (h : Pending isSuccess s seen c) :
    let c' := reqs.foldl (fun c req => (c.onMsg isSuccess s.op req msg).1) c
    Pending isSuccess s (fun _ => history ++ [msg]) c' ∨
      Ran isSuccess s (SeenBy s history msg) c' := by
  induction reqs generalizing seen c with
  | nil => exact .inl ⟨h.keeps.congr hseen, h.executed, h.runs, h.missing⟩
  | cons req reqs ih =>
    obtain ⟨hnotMem, hnodup⟩ := List.nodup_cons.mp hnodup
    obtain ⟨hreq, hreqs⟩ := List.forall_mem_cons.mp hreqs
    have hseen' : ∀ req' ∈ s.requirements,
        (if req'.name = req.name then seen req' ++ [msg] else seen req') =
          if req'.name ∈ reqs.map (·.name) then history else history ++ [msg] := by
      intro req' hreq'
      rw [hseen req' hreq']
      rcases eq_or_ne req'.name req.name with hname | hname
      · rw [if_pos hname, hname, if_neg hnotMem,
          if_pos (List.mem_map_of_mem List.mem_cons_self)]
      · simp [hname]
    rcases onMsg_spec h hreq msg with hpending | hran
    · exact ih hreqs hnodup hseen' hpending
    · rw [List.foldl_cons, foldl_executed reqs hran.1]
      refine .inr (hran.imp ?_)
      rintro _ rfl req' hreq'
      beta_reduce
      rw [hseen' req' hreq']
      exact ite_eq_or_eq _ _ _

/-- All importers of the collector: the operation is still pending, or has just run. -/
theorem process_spec (h : Pending isSuccess s (fun _ => history) c) (msg : Msg) :
    Pending isSuccess s (fun _ => history ++ [msg]) (s.process isSuccess c msg) ∨
      Ran isSuccess s (SeenBy s history msg) (s.process isSuccess c msg) := by
  refine foldl_spec s.requirements (fun _ hreq => hreq) s.distinct (fun req hreq => ?_) h
  rw [if_pos (List.mem_map_of_mem hreq)]

end Message

/-! ### Histories -/

section History
variable {s : CollectorSetup Msg} {c : EventCollector Msg} {history : List Msg} {msg : Msg}

/-- For every requirement some message of the history is accepted. -/
def AllAccepted (isSuccess : Msg → Bool) (s : CollectorSetup Msg) (history : List Msg) : Prop :=
  ∀ req ∈ s.requirements, ∃ msg ∈ history, req.accepts isSuccess msg = true

theorem lastAccepted_ne_none {req : Requirement Msg} :
    lastAccepted isSuccess req history ≠ none ↔
      ∃ msg ∈ history, req.accepts isSuccess msg = true := by
  rw [Ne, lastAccepted_eq_none]
  simp

theorem AllAccepted.append (h : AllAccepted isSuccess s history) :
    AllAccepted isSuccess s (history ++ [msg]) := by
  intro req hreq
  obtain ⟨m, hm, haccepts⟩ := h req hreq
  exact ⟨m, List.mem_append_left _ hm, haccepts⟩

theorem Pending.not_allAccepted (h : Pending isSuccess s (fun _ => history) c) :
    ¬ AllAccepted isSuccess s history := by
  intro hall
  obtain ⟨name, hname⟩ := Finset.nonempty_iff_ne_empty.mpr h.missing
  obtain ⟨req, hreq, rfl⟩ := h.keeps.names name (.inr hname)
  exact lastAccepted_ne_none.mpr (hall req hreq) ((h.keeps.waiting req hreq).mp hname)

theorem Ran.allAccepted (h : Ran isSuccess s (SeenBy s history msg) c) :
    AllAccepted isSuccess s (history ++ [msg]) := by
  obtain ⟨-, seen, hseen, hsome, -⟩ := h
  intro req hreq
  have haccepted := lastAccepted_ne_none.mp (hsome req hreq)
  rcases hseen req hreq with heq | heq
  · rw [heq] at haccepted
    obtain ⟨m, hm, haccepts⟩ := haccepted
    exact ⟨m, List.mem_append_left _ hm, haccepts⟩
  · rwa [heq] at haccepted

theorem pending_init (hne : s.requirements ≠ []) :
    Pending isSuccess s (fun _ => []) s.init := by
  refine ⟨⟨fun req _ => ?_, fun req hreq => ?_, ?_⟩, rfl, rfl, ?_⟩
  · exact Std.TreeMap.getElem?_emptyc
  · have hmem : req.name ∈ s.init.waitingFor := List.mem_toFinset.mpr (List.mem_map_of_mem hreq)
    exact iff_of_true hmem rfl
  · rintro name (hname | hname)
    · exact absurd hname Std.TreeMap.not_mem_emptyc
    · simpa [CollectorSetup.init] using hname
  · obtain ⟨req, hreq⟩ := List.exists_mem_of_ne_nil _ hne
    exact Finset.ne_empty_of_mem (List.mem_toFinset.mpr (List.mem_map_of_mem hreq))

theorem collect_append (s : CollectorSetup Msg) (history : List Msg) (msg : Msg) :
    s.collect isSuccess (history ++ [msg]) =
      s.process isSuccess (s.collect isSuccess history) msg := by
  rw [CollectorSetup.collect, List.foldl_append]
  rfl

/-- After any history the operation is pending, or it has run once and everything was accepted. -/
theorem collect_spec (isSuccess : Msg → Bool) (hne : s.requirements ≠ [])
    (history : List Msg) :
    Pending isSuccess s (fun _ => history) (s.collect isSuccess history) ∨
      (s.collect isSuccess history).executed = true ∧
        (∃ deps, (s.collect isSuccess history).runs = [deps]) ∧
        AllAccepted isSuccess s history := by
  induction history using List.reverseRecOn with
  | nil => exact .inl (pending_init hne)
  | append_singleton history msg ih =>
    rw [collect_append]
    rcases ih with hpending | ⟨hexecuted, hruns, hall⟩
    · rcases process_spec hpending msg with hpending | hran
      · exact .inl hpending
      · have hall := hran.allAccepted
        obtain ⟨hexecuted, -, -, -, deps, hruns, -⟩ := hran
        exact .inr ⟨hexecuted, ⟨deps, hruns⟩, hall⟩
    · rw [CollectorSetup.process, foldl_executed _ hexecuted]
      exact .inr ⟨hexecuted, hruns, hall.append⟩

/-- The operation's argument: exactly the required names, each with an accepted message that no
    accepted one follows before the message `msg` that triggers. -/
structure RightDependencies (isSuccess : Msg → Bool) (s : CollectorSetup Msg) (history : List Msg)
    (msg : Msg) (deps : Dependencies Msg) : Prop where
  names : ∀ name, name ∈ deps ↔ ∃ req ∈ s.requirements, req.name = name
  messages : ∀ req ∈ s.requirements, ∃ m, deps[req.name]? = some m ∧
    req.accepts isSuccess m = true ∧
    (m = msg ∨ ∃ earlier later, history = earlier ++ m :: later ∧
      ∀ m' ∈ later, req.accepts isSuccess m' = false)

theorem rightDependencies {seen : Requirement Msg → List Msg} {deps : Dependencies Msg}
    (hseen : SeenBy s history msg seen)
    (hsome : ∀ req ∈ s.requirements, lastAccepted isSuccess req (seen req) ≠ none)
    (hdeps : ∀ req ∈ s.requirements, deps[req.name]? = lastAccepted isSuccess req (seen req))
    (hnames : ∀ name ∈ deps, ∃ req ∈ s.requirements, req.name = name) :
    RightDependencies isSuccess s history msg deps := by
  refine ⟨fun name => ⟨hnames name, ?_⟩, fun req hreq => ?_⟩
  · rintro ⟨req, hreq, rfl⟩
    rw [Std.TreeMap.mem_iff_isSome_getElem?, hdeps req hreq]
    exact Option.isSome_iff_ne_none.mpr (hsome req hreq)
  · obtain ⟨m, hm⟩ := Option.ne_none_iff_exists'.mp (hsome req hreq)
    refine ⟨m, (hdeps req hreq).trans hm, (lastAccepted_eq_some hm).1, ?_⟩
    rcases hseen req hreq with heq | heq
    · rw [heq] at hm
      exact .inr (lastAccepted_eq_some hm).2
    · rw [heq, lastAccepted_append] at hm
      split_ifs at hm
      · exact .inl (Option.some_inj.mp hm).symm
      · exact .inr (lastAccepted_eq_some hm).2

/-- CORRECT: a collector with requirements runs its operation at most once, exactly when a message
    completes what its requirements have accepted, and with the right messages. -/
theorem collects_once (isSuccess : Msg → Bool) (s : CollectorSetup Msg)
    (hne : s.requirements ≠ []) (history : List Msg) :
    (s.collect isSuccess history).runs.length ≤ 1 ∧
    ∀ msg,
      ((s.collect isSuccess (history ++ [msg])).runs ≠ (s.collect isSuccess history).runs ↔
        AllAccepted isSuccess s (history ++ [msg]) ∧ ¬ AllAccepted isSuccess s history) ∧
      ∀ deps, (s.collect isSuccess (history ++ [msg])).runs =
          (s.collect isSuccess history).runs ++ [deps] →
        RightDependencies isSuccess s history msg deps := by
  rcases collect_spec isSuccess hne history with hpending | ⟨hexecuted, hruns, hall⟩
  · refine ⟨by simp [hpending.runs], fun msg => ?_⟩
    rw [collect_append, hpending.runs]
    rcases process_spec hpending msg with hstill | hran
    · rw [hstill.runs]
      refine ⟨iff_of_false (by simp) fun h => hstill.not_allAccepted h.1, fun deps hdeps => ?_⟩
      simp at hdeps
    · have hall := hran.allAccepted
      obtain ⟨-, seen, hseen, hsome, deps, hruns, hdeps, hnames⟩ := hran
      rw [hruns]
      refine ⟨iff_of_true (by simp) ⟨hall, hpending.not_allAccepted⟩, fun deps' heq => ?_⟩
      obtain rfl : deps = deps' := by simpa using heq
      exact rightDependencies hseen hsome hdeps hnames
  · obtain ⟨deps, hruns⟩ := hruns
    refine ⟨by simp [hruns], fun msg => ?_⟩
    rw [collect_append, CollectorSetup.process, foldl_executed _ hexecuted]
    refine ⟨iff_of_false (by simp) fun h => h.2 hall, fun deps' heq => ?_⟩
    simp at heq

end History

/-- A collector that requires the event `osm`, and any message named so. -/
def osmSetup : CollectorSetup String where
  requirements := [⟨"OSM", fun msg => msg == "osm"⟩]
  distinct := by decide
  op := fun _ => ["done"]

theorem collects_once_osm :
    (osmSetup.collect (· == "status") ["status", "gtfs"]).runs.length ≤ 1 ∧
    ∀ msg,
      ((osmSetup.collect (· == "status") (["status", "gtfs"] ++ [msg])).runs ≠
          (osmSetup.collect (· == "status") ["status", "gtfs"]).runs ↔
        AllAccepted (· == "status") osmSetup (["status", "gtfs"] ++ [msg]) ∧
          ¬ AllAccepted (· == "status") osmSetup ["status", "gtfs"]) ∧
      ∀ deps, (osmSetup.collect (· == "status") (["status", "gtfs"] ++ [msg])).runs =
          (osmSetup.collect (· == "status") ["status", "gtfs"]).runs ++ [deps] →
        RightDependencies (· == "status") osmSetup ["status", "gtfs"] msg deps :=
  collects_once (· == "status") osmSetup (List.cons_ne_nil _ _) ["status", "gtfs"]

/-- A collector whose requirement accepts every message. -/
def eagerSetup : CollectorSetup String where
  requirements := [⟨"ANY", fun _ => true⟩]
  distinct := by decide
  op := fun _ => []

/-- A collector without requirements. -/
def idleSetup : CollectorSetup String where
  requirements := []
  distinct := List.nodup_nil
  op := fun _ => []

/-- The first message all matchers accept does not run the operation when it is a dummy message, or
    when there is no matcher. -/
theorem accepted_without_run :
    ((∀ req ∈ eagerSetup.requirements, req.matcher "status" = true) ∧
      (eagerSetup.collect (· == "status") ["status"]).runs = []) ∧
    (∀ req ∈ idleSetup.requirements, req.matcher "osm" = true) ∧
      (idleSetup.collect (· == "status") ["osm"]).runs = [] := by
  refine ⟨⟨?_, rfl⟩, ?_, rfl⟩
  · intro req hreq
    obtain rfl := List.mem_singleton.mp hreq
    rfl
  · intro req hreq
    cases hreq

/-! ### The dispatcher -/

section Dispatcher
variable (setups : ℕ → CollectorSetup Msg)

/-- Every collector is in the state the processed messages have left it in. -/
structure Collects (isSuccess : Msg → Bool) (d : ImportDispatcher Msg) : Prop where
  subscribed : ∀ i, (d.importers.filter (·.collector == i)).map (·.requirement) =
    (setups i).requirements
  collected : ∀ i, d.collectors i = (setups i).collect isSuccess d.processed

/-- A message passes all importers: each collector sees its own. -/
theorem foldl_deliver (isSuccess : Msg → Bool) (op : ℕ → Dependencies Msg → List Msg) (m : Msg)
    (importers : List (Importer Msg)) (d : ImportDispatcher Msg) :
    let d' := importers.foldl (ImportDispatcher.deliver isSuccess op m) d
    d'.importers = d.importers ∧ d'.processed = d.processed ∧
      ∀ i, d'.collectors i =
        ((importers.filter (·.collector == i)).map (·.requirement)).foldl
          (fun c req => (c.onMsg isSuccess (op i) req m).1) (d.collectors i) := by
  induction importers generalizing d with
  | nil => exact ⟨rfl, rfl, fun _ => rfl⟩
  | cons a importers ih =>
    obtain ⟨himporters, hprocessed, hcollectors⟩ := ih (ImportDispatcher.deliver isSuccess op m d a)
    refine ⟨himporters, hprocessed, fun i => (hcollectors i).trans ?_⟩
    rcases eq_or_ne a.collector i with hi | hi
    · subst hi
      simp [ImportDispatcher.deliver]
    · have hne : i ≠ a.collector := fun heq => hi heq.symm
      simp [ImportDispatcher.deliver, hi, Function.update_of_ne hne]

/-- One iteration of the dispatcher's loop is one message more for every collector. -/
theorem Collects.runStep {d : ImportDispatcher Msg} (h : Collects setups isSuccess d) :
    Collects setups isSuccess (d.runStep isSuccess fun i => (setups i).op) := by
  rw [ImportDispatcher.runStep]
  cases d.publishQueue with
  | nil => exact h
  | cons m rest =>
    obtain ⟨himporters, hprocessed, hcollectors⟩ := foldl_deliver isSuccess
      (fun i => (setups i).op) m d.importers
      { d with publishQueue := rest, processed := d.processed ++ [m] }
    refine ⟨fun i => ?_, fun i => ?_⟩
    · rw [himporters]
      exact h.subscribed i
    · rw [hprocessed, hcollectors i, h.subscribed i, collect_append, ← h.collected i]
      rfl

/-- A run of the dispatcher is a history of messages for each of its collectors, whatever their
    operations publish. -/
theorem run_collects {d : ImportDispatcher Msg} (h : Collects setups isSuccess d) (n : ℕ) :
    Collects setups isSuccess
      ((ImportDispatcher.runStep isSuccess fun i => (setups i).op)^[n] d) := by
  induction n generalizing d with
  | zero => exact h
  | succ n ih => exact ih (h.runStep setups)

end Dispatcher

end Motis.Module
