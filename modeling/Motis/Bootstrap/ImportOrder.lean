import Motis.Bootstrap.ImportRun

/-! The order of the modules.

    Which operations run in an import, and with what, does not depend on the order in which the
    modules register their collectors, as long as no requirement accepts two different messages:
    whatever is published in one order is published in the other one. -/

namespace Motis.Bootstrap
open Motis.Module Motis.Nigiri Fallible

variable {Event : Type} {fs : FileSystem} {h : Hashing}

/-- Two maps hold the same messages. -/
def SameDependencies (deps deps' : Dependencies (ImportMsg Event)) : Prop :=
  ∀ name : String, deps[name]? = deps'[name]?

/-- The operation depends on nothing but the messages in the map. -/
def Extensional (s : CollectorSetup (ImportMsg Event)) : Prop :=
  ∀ deps deps', SameDependencies deps deps' → s.op deps = s.op deps'

/-- No requirement of a collector accepts two different messages. -/
def Unambiguous (setups : List (CollectorSetup (ImportMsg Event)))
    (messages : List (ImportMsg Event)) : Prop :=
  ∀ s ∈ setups, ∀ req ∈ s.requirements, ∀ m ∈ messages, ∀ m' ∈ messages,
    req.accepts ImportMsg.isSuccess m = true → req.accepts ImportMsg.isSuccess m' = true → m = m'

section Collector
variable {s : CollectorSetup (ImportMsg Event)} {deps deps' : Dependencies (ImportMsg Event)}
  {history history' messages : List (ImportMsg Event)} {msg msg' : ImportMsg Event}

/-- Every message an operation is run with was accepted, and has been there. -/
theorem accepted_of_right
    (hright : RightDependencies ImportMsg.isSuccess s history msg deps)
    {req : Requirement (ImportMsg Event)} (hreq : req ∈ s.requirements) :
    ∃ m ∈ history ++ [msg], deps[req.name]? = some m ∧
      req.accepts ImportMsg.isSuccess m = true := by
  obtain ⟨m, hm, haccepts, hwhere⟩ := hright.messages req hreq
  refine ⟨m, ?_, hm, haccepts⟩
  rcases hwhere with rfl | ⟨earlier, later, rfl, -⟩ <;> simp

/-- An operation is run with the same messages when there is one for each requirement only. -/
theorem same_of_right
    (hright : RightDependencies ImportMsg.isSuccess s history msg deps)
    (hright' : RightDependencies ImportMsg.isSuccess s history' msg' deps')
    (hmem : ∀ m ∈ history ++ [msg], m ∈ messages) (hmem' : ∀ m ∈ history' ++ [msg'], m ∈ messages)
    (hunique : Unambiguous [s] messages) : SameDependencies deps deps' := by
  intro name
  by_cases hname : ∃ req ∈ s.requirements, req.name = name
  · obtain ⟨req, hreq, rfl⟩ := hname
    obtain ⟨m, hm, hdeps, haccepts⟩ := accepted_of_right hright hreq
    obtain ⟨m', hm', hdeps', haccepts'⟩ := accepted_of_right hright' hreq
    have heq := hunique s List.mem_cons_self req hreq m (hmem m hm) m' (hmem' m' hm') haccepts
      haccepts'
    rw [hdeps, hdeps', heq]
  · have hnot := mt (hright.names name).mp hname
    have hnot' := mt (hright'.names name).mp hname
    rw [Std.TreeMap.getElem?_eq_none hnot, Std.TreeMap.getElem?_eq_none hnot']

end Collector

section Order
variable {setups setups' : List (CollectorSetup (ImportMsg Event))} {paths : List ImportPath}
  {steps steps' : List (ImportStep Event)} {d d' : FileDispatcher Event}

/-- A collector at a place is one of those registered, or has nothing to do. -/
theorem setupAt_cases (setups : List (CollectorSetup (ImportMsg Event))) (i : ℕ) :
    setupAt setups i ∈ setups ∨ setupAt setups i = noCollector := by
  rw [setupAt, List.getD_eq_getElem?_getD]
  cases hi : setups[i]? with
  | none => exact .inr rfl
  | some s => exact .inl (List.mem_of_getElem? hi)

theorem setupAt_of_mem {s : CollectorSetup (ImportMsg Event)} (hs : s ∈ setups) :
    ∃ i, setupAt setups i = s := by
  obtain ⟨i, hi, rfl⟩ := List.getElem_of_mem hs
  exact ⟨i, by simp [setupAt, List.getD_eq_getElem?_getD, hi]⟩

theorem Unambiguous.single {messages : List (ImportMsg Event)} (h : Unambiguous setups messages)
    {s : CollectorSetup (ImportMsg Event)} (hs : s ∈ setups) : Unambiguous [s] messages := by
  intro s' hs'
  obtain rfl := List.mem_singleton.mp hs'
  exact h s' hs

theorem Progress.runs_of_fired (hprogress : Progress fs h setups paths steps d)
    {s : ImportStep Event} (hs : s ∈ steps) {i : ℕ} {deps : Dependencies (ImportMsg Event)}
    (hf : (i, deps) ∈ s.fired) : deps ∈ (d.collectors i).runs := by
  rw [hprogress.runs i]
  refine List.mem_map.mpr ⟨(i, deps), List.mem_filter.mpr ⟨?_, by simp⟩, rfl⟩
  exact List.mem_flatMap.mpr ⟨s, hs, hf⟩

/-- An operation has run with what a step tells. -/
theorem Progress.fired_of_runs (hprogress : Progress fs h setups paths steps d) {i : ℕ}
    {deps : Dependencies (ImportMsg Event)} (hruns : deps ∈ (d.collectors i).runs) :
    ∃ before s after, steps = before ++ s :: after ∧ (i, deps) ∈ s.fired := by
  rw [hprogress.runs i] at hruns
  obtain ⟨f, hfired, rfl⟩ := List.mem_map.mp hruns
  obtain ⟨hfired, hi⟩ := List.mem_filter.mp hfired
  obtain ⟨s, hs, hf⟩ := List.mem_flatMap.mp hfired
  obtain ⟨before, after, hsplit⟩ := List.append_of_mem hs
  obtain rfl : f.1 = i := by simpa using hi
  exact ⟨before, s, after, hsplit, hf⟩

/-- The messages up to a step have been processed. -/
theorem Progress.mem_processed (hprogress : Progress fs h setups paths steps d)
    {before after : List (ImportStep Event)} {s : ImportStep Event}
    (hsplit : steps = before ++ s :: after) :
    ∀ m ∈ (.motisSuccess :: before.map (·.msg)) ++ [s.msg], m ∈ d.processed := by
  intro m hm
  have hpre : (.motisSuccess :: before.map (·.msg)) ++ [s.msg] ++ after.map (·.msg) =
      d.processed := by
    simp [hprogress.processed, hsplit]
  rw [← hpre]
  exact List.mem_append_left _ hm

/-- At the end everything that was published is processed. -/
theorem Progress.published_processed (hprogress : Progress fs h setups paths steps d)
    (hdrained : d.publishQueue = []) {s : ImportStep Event} (hs : s ∈ steps) :
    ∀ m ∈ s.publishes setups, m ∈ d.processed := by
  intro m hm
  have hqueue := hprogress.queue
  rw [hdrained, List.append_nil] at hqueue
  rw [hprogress.processed, hqueue]
  refine List.mem_cons_of_mem _ (List.mem_cons_of_mem _ ?_)
  exact List.mem_flatMap.mpr ⟨s, hs, hm⟩

/-- In the other order the step publishes nothing new. -/
theorem published_of_processed (hsame : ∀ s, s ∈ setups' ↔ s ∈ setups)
    (hext : ∀ s ∈ setups, Extensional s)
    (hprogress : Progress fs h setups paths steps d) (hdrained : d.publishQueue = [])
    (hunique : Unambiguous setups d.processed)
    (hprogress' : Progress fs h setups' paths steps' d')
    {before after : List (ImportStep Event)} {s : ImportStep Event}
    (hsplit : steps' = before ++ s :: after)
    (hbefore : ∀ m ∈ (.motisSuccess :: before.map (·.msg)) ++ [s.msg], m ∈ d.processed) :
    ∀ m ∈ s.publishes setups', m ∈ d.processed := by
  intro m hm
  have hs : s ∈ steps' := by simp [hsplit]
  rcases List.mem_append.mp hm with hm | hm
  · have hmsg := hbefore s.msg (List.mem_append_right _ List.mem_cons_self)
    have hfiles := hprogress'.files s hs
    rw [hprogress.processed] at hmsg
    rcases List.mem_cons.mp hmsg with hmsg | hmsg
    · rw [hmsg] at hfiles
      have hnil : [] = s.files := Except.ok.inj hfiles
      rw [← hnil] at hm
      cases hm
    · obtain ⟨s₁, hs₁, hmsg⟩ := List.mem_map.mp hmsg
      have hfiles₁ := hprogress.files s₁ hs₁
      rw [hmsg, hfiles] at hfiles₁
      refine hprogress.published_processed hdrained hs₁ m (List.mem_append_left _ ?_)
      rwa [← Except.ok.inj hfiles₁]
  · obtain ⟨⟨i, deps⟩, hf, hm⟩ := List.mem_flatMap.mp hm
    have hright := hprogress'.right before s after hsplit (i, deps) hf
    rcases setupAt_cases setups' i with hsetup | hnone
    · have hsetup' := (hsame _).mp hsetup
      obtain ⟨j, hj⟩ := setupAt_of_mem hsetup'
      have hruns' : deps ∈ (d'.collectors i).runs := hprogress'.runs_of_fired hs hf
      have hran : (d.collectors j).runs ≠ [] := by
        refine (hprogress.ran j).2.mpr ?_
        rw [hj]
        refine ⟨((hprogress'.ran i).2.mp (List.ne_nil_of_mem hruns')).1, fun req hreq => ?_⟩
        obtain ⟨m', hm', -, haccepts⟩ := accepted_of_right hright hreq
        exact ⟨m', hbefore m' hm', haccepts⟩
      obtain ⟨deps₁, hdeps₁⟩ := List.exists_mem_of_ne_nil _ hran
      obtain ⟨before₁, s₁, after₁, hsplit₁, hf₁⟩ := hprogress.fired_of_runs hdeps₁
      have hright₁ := hprogress.right before₁ s₁ after₁ hsplit₁ (j, deps₁) hf₁
      rw [hj] at hright₁
      have hdeps := same_of_right hright hright₁ hbefore
        (hprogress.mem_processed hsplit₁) (hunique.single hsetup')
      have hop := hext _ hsetup' deps deps₁ hdeps
      have hs₁ : s₁ ∈ steps := by simp [hsplit₁]
      refine hprogress.published_processed hdrained hs₁ m (List.mem_append_right _ ?_)
      refine List.mem_flatMap.mpr ⟨(j, deps₁), hf₁, ?_⟩
      rwa [hj, ← hop]
    · rw [hnone] at hm
      cases hm

/-- In the other order nothing is processed or queued that is not processed in the one. -/
theorem Progress.mem_of_mem (hsame : ∀ s, s ∈ setups' ↔ s ∈ setups)
    (hext : ∀ s ∈ setups, Extensional s)
    (hprogress : Progress fs h setups paths steps d) (hdrained : d.publishQueue = [])
    (hunique : Unambiguous setups d.processed)
    (hprogress' : Progress fs h setups' paths steps' d') :
    ∀ m ∈ d'.processed ++ d'.publishQueue, m ∈ d.processed := by
  have hfile : .fileEvent paths ∈ d.processed := by
    have hqueue := hprogress.queue
    rw [hdrained, List.append_nil] at hqueue
    simp [hprogress.processed, hqueue]
  have hsuccess : .motisSuccess ∈ d.processed := by simp [hprogress.processed]
  have hprefix : ∀ before after, steps' = before ++ after →
      (∀ m ∈ before.map (·.msg), m ∈ d.processed) ∧
        ∀ m ∈ before.flatMap (·.publishes setups'), m ∈ d.processed := by
    intro before
    induction before using List.reverseRecOn with
    | nil => simp
    | append_singleton before s ih =>
      intro after hsplit
      rw [List.append_assoc, List.singleton_append] at hsplit
      obtain ⟨hmsgs, hpublished⟩ := ih (s :: after) hsplit
      have hmsg : s.msg ∈ d.processed := by
        rcases List.mem_cons.mp (hprogress'.caused before s after hsplit) with hmsg | hmsg
        · rwa [hmsg]
        · exact hpublished _ hmsg
      have hbefore : ∀ m ∈ (.motisSuccess :: before.map (·.msg)) ++ [s.msg], m ∈ d.processed := by
        intro m hm
        rcases List.mem_append.mp hm with hm | hm
        · rcases List.mem_cons.mp hm with rfl | hm
          · exact hsuccess
          · exact hmsgs m hm
        · rwa [List.mem_singleton.mp hm]
      have hnew := published_of_processed hsame hext hprogress hdrained hunique hprogress' hsplit
        hbefore
      refine ⟨fun m hm => ?_, fun m hm => ?_⟩
      · rw [List.map_append] at hm
        rcases List.mem_append.mp hm with hm | hm
        · exact hmsgs m hm
        · rwa [List.mem_singleton.mp hm]
      · rw [List.flatMap_append] at hm
        rcases List.mem_append.mp hm with hm | hm
        · exact hpublished m hm
        · exact hnew m (by simpa using hm)
  obtain ⟨-, hpublished⟩ := hprefix steps' [] (List.append_nil _).symm
  intro m hm
  rw [hprogress'.processed, List.cons_append, hprogress'.queue] at hm
  rcases List.mem_cons.mp hm with rfl | hm
  · exact hsuccess
  · rcases List.mem_cons.mp hm with rfl | hm
    · exact hfile
    · exact hpublished m hm

/-- The collector ran in both orders or in none, with the same messages. -/
theorem same_runs (hprogress : Progress fs h setups paths steps d)
    (hprogress' : Progress fs h setups' paths steps' d')
    (hmem : ∀ m, m ∈ d'.processed ↔ m ∈ d.processed) (hunique : Unambiguous setups d.processed)
    {i j : ℕ} {s : CollectorSetup (ImportMsg Event)} (hs : s ∈ setups) (hi : setupAt setups i = s)
    (hj : setupAt setups' j = s) :
    List.Forall₂ SameDependencies (d.collectors i).runs (d'.collectors j).runs := by
  obtain ⟨hlength, hran⟩ := hprogress.ran i
  obtain ⟨hlength', hran'⟩ := hprogress'.ran j
  have hboth : (d.collectors i).runs ≠ [] ↔ (d'.collectors j).runs ≠ [] := by
    rw [hran, hran', hi, hj]
    simp only [AllAccepted, hmem]
  cases hruns : (d.collectors i).runs with
  | nil =>
    have hruns' : (d'.collectors j).runs = [] := by simpa [hruns] using hboth
    rw [hruns']
    exact .nil
  | cons deps others =>
    have hothers : others = [] := by simpa [hruns] using hlength
    obtain ⟨deps', others', hruns'⟩ : ∃ deps' others', (d'.collectors j).runs = deps' :: others' :=
      List.exists_cons_of_ne_nil (hboth.mp (by simp [hruns]))
    have hothers' : others' = [] := by simpa [hruns'] using hlength'
    rw [hruns', hothers, hothers']
    refine .cons ?_ .nil
    obtain ⟨before, t, after, hsplit, hf⟩ := hprogress.fired_of_runs
      (show deps ∈ (d.collectors i).runs by simp [hruns])
    obtain ⟨before', t', after', hsplit', hf'⟩ := hprogress'.fired_of_runs
      (show deps' ∈ (d'.collectors j).runs by simp [hruns'])
    have hright := hprogress.right before t after hsplit _ hf
    have hright' := hprogress'.right before' t' after' hsplit' _ hf'
    rw [hi] at hright
    rw [hj] at hright'
    exact same_of_right hright hright' (hprogress.mem_processed hsplit)
      (fun m hm => (hmem m).mp (hprogress'.mem_processed hsplit' m hm)) (hunique.single hs)

/-- CORRECT: two imports of the same files with the same collectors, registered in different orders,
    both succeed when one does in which no requirement accepts two different messages; they process
    the same messages, and every collector runs in both or in none, with the same messages. -/
theorem import_order (fs : FileSystem) (h : Hashing)
    (setups setups' : List (CollectorSetup (ImportMsg Event))) (importPaths : List String)
    (hsame : ∀ s, s ∈ setups' ↔ s ∈ setups) (hext : ∀ s ∈ setups, Extensional s)
    (d : FileDispatcher Event) (hd : runImport fs h setups importPaths = .ok d)
    (hunique : Unambiguous setups d.processed) :
    ∃ d', runImport fs h setups' importPaths = .ok d' ∧
      (∀ m, m ∈ d'.processed ↔ m ∈ d.processed) ∧
      ∀ i j s, s ∈ setups → setupAt setups i = s → setupAt setups' j = s →
        List.Forall₂ SameDependencies (d.collectors i).runs (d'.collectors j).runs := by
  rcases runImport_cases fs h setups importPaths with
    ⟨e, -, hrun⟩ | ⟨paths, hpaths, ⟨d₁, hrun, himported⟩ | ⟨e, d₁, steps, hrun, -⟩⟩
  · rw [hd] at hrun
    cases hrun
  · obtain rfl : d = d₁ := Except.ok.inj (hd.symm.trans hrun)
    obtain ⟨steps, hprogress⟩ := himported.explained
    rcases runImport_cases fs h setups' importPaths with
      ⟨e, he, -⟩ | ⟨paths', hpaths', ⟨d', hrun', himported'⟩ |
        ⟨e, d', steps', -, hprogress', m, hm, he⟩⟩
    · rw [hpaths] at he
      cases he
    · obtain rfl : paths = paths' := by simpa [hpaths] using hpaths'
      obtain ⟨steps', hprogress'⟩ := himported'.explained
      have hsub : ∀ m ∈ d'.processed, m ∈ d.processed := fun m hm =>
        hprogress.mem_of_mem hsame hext himported.drained hunique hprogress' m
          (List.mem_append_left _ hm)
      have hunique' : Unambiguous setups' d'.processed := fun s hs req hreq m hm m' hm' =>
        hunique s ((hsame s).mp hs) req hreq m (hsub m hm) m' (hsub m' hm')
      have hsup : ∀ m ∈ d.processed, m ∈ d'.processed := fun m hm =>
        hprogress'.mem_of_mem (fun s => (hsame s).symm) (fun s hs => hext s ((hsame s).mp hs))
          himported'.drained hunique' hprogress m (List.mem_append_left _ hm)
      refine ⟨d', hrun', fun m => ⟨hsub m, hsup m⟩, fun i j s hs hi hj => ?_⟩
      exact same_runs hprogress hprogress' (fun m => ⟨hsub m, hsup m⟩) hunique hs hi hj
    · obtain rfl : paths = paths' := by simpa [hpaths] using hpaths'
      have hmem := hprogress.mem_of_mem hsame hext himported.drained hunique hprogress' m
        (List.mem_append_right _ hm)
      rw [hprogress.processed] at hmem
      rcases List.mem_cons.mp hmem with rfl | hmem
      · cases he
      · obtain ⟨s, hs, rfl⟩ := List.mem_map.mp hmem
        rw [hprogress.files s hs] at he
        cases he
  · rw [hd] at hrun
    cases hrun

end Order

/-! ### Two modules -/

/-- Every path is a file of three bytes. -/
def someFiles : FileSystem where
  fileExists := fun _ => true
  isRegularFile := fun _ => true
  isDirectory := fun _ => false
  fileSize := fun _ => some 3
  content := fun _ => some [1, 2, 3]
  entries := fun _ => []

def someHashing : Hashing where
  baseHash := 7
  hash := fun bytes h => bytes.foldl (fun h b => h * 31 + b.toUInt64) h
  hashCombine := fun h size => h * 31 + size

def isOsmEvent : ImportMsg String → Bool
  | .osmEvent _ _ _ => true
  | _ => false

/-- `osrm` with the profile `foot`. -/
def osrmSetup : CollectorSetup (ImportMsg String) where
  requirements := [⟨"OSM", isOsmEvent⟩]
  distinct := by decide
  op := fun _ => [.published "foot"]

/-- A module that waits for the profile. -/
def footSetup : CollectorSetup (ImportMsg String) where
  requirements := [⟨"OSRM_FOOT", (· == .published "foot")⟩]
  distinct := by decide
  op := fun _ => []

theorem runImport_osm : ∃ d,
    runImport someFiles someHashing [footSetup, osrmSetup] ["osm:map.osm"] = .ok d ∧
      d.processed = [.motisSuccess, .fileEvent [⟨"osm", "", "map.osm"⟩],
        .osmEvent "map.osm" 6496456 3, .published "foot"] := by
  have hfile : makeFileEvent String someFiles ["osm:map.osm"] =
      .ok (.fileEvent [⟨"osm", "", "map.osm"⟩]) := by decide
  have hrun : ∃ d, FileDispatcher.run someFiles someHashing
      (fun i => (setupAt [footSetup, osrmSetup] i).op)
      ((askedDispatcher [footSetup, osrmSetup]).publish (.fileEvent [⟨"osm", "", "map.osm"⟩])) =
        .ok d ∧
      d.processed = [.motisSuccess, .fileEvent [⟨"osm", "", "map.osm"⟩],
        .osmEvent "map.osm" 6496456 3, .published "foot"] :=
    ⟨_, (FileDispatcher.run_step (List.cons_ne_nil _ _) rfl).trans <|
      (FileDispatcher.run_step (List.cons_ne_nil _ _) rfl).trans <|
      (FileDispatcher.run_step (List.cons_ne_nil _ _) rfl).trans <|
      FileDispatcher.run_nil (by decide), by decide⟩
  rw [runImport_eq, hfile]
  exact hrun

theorem import_order_osm : ∃ d,
    runImport someFiles someHashing [footSetup, osrmSetup] ["osm:map.osm"] = .ok d ∧
    ∃ d', runImport someFiles someHashing [osrmSetup, footSetup] ["osm:map.osm"] = .ok d' ∧
      (∀ m, m ∈ d'.processed ↔ m ∈ d.processed) ∧
      ∀ i j s, s ∈ [footSetup, osrmSetup] → setupAt [footSetup, osrmSetup] i = s →
        setupAt [osrmSetup, footSetup] j = s →
        List.Forall₂ SameDependencies (d.collectors i).runs (d'.collectors j).runs := by
  obtain ⟨d, hd, hprocessed⟩ := runImport_osm
  refine ⟨d, hd, import_order someFiles someHashing _ _ _ (fun s => ?_) (fun s hs => ?_) d hd ?_⟩
  · simp [or_comm]
  · rcases List.mem_cons.mp hs with rfl | hs
    · exact fun _ _ _ => rfl
    · obtain rfl := List.mem_singleton.mp hs
      exact fun _ _ _ => rfl
  · rw [hprocessed, Unambiguous]
    decide

end Motis.Bootstrap
