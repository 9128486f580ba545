import Motis.Bootstrap.ImportFiles
import Motis.Module.ImportJoin

/-! A whole import.

    The import ends, or a file of a file event cannot be read. When it ends, nothing is queued, the
    messages were processed in the order in which they were published, each file event has brought
    its files, and each collector has run once if every requirement of it has accepted a message,
    and not at all otherwise. -/

namespace Motis.Bootstrap
open Motis.Module Motis.Nigiri Fallible

/-! ### One collector -/

section Collector
variable {Msg : Type} {isSuccess : Msg → Bool} {s : CollectorSetup Msg} {history : List Msg}

theorem collect_idle (hnone : s.requirements = []) :
    s.collect isSuccess history = s.init := by
  induction history using List.reverseRecOn with
  | nil => rfl
  | append_singleton history msg ih =>
    rw [collect_append, CollectorSetup.process, hnone, List.foldl_nil, ih]

theorem collect_ran (isSuccess : Msg → Bool) (s : CollectorSetup Msg) (history : List Msg) :
    (s.collect isSuccess history).runs.length ≤ 1 ∧
      ((s.collect isSuccess history).runs ≠ [] ↔
        s.requirements ≠ [] ∧ AllAccepted isSuccess s history) := by
  rcases eq_or_ne s.requirements [] with hnone | hsome
  · rw [collect_idle hnone]
    simp [CollectorSetup.init, hnone]
  · rcases collect_spec isSuccess hsome history with hpending | ⟨-, ⟨deps, hruns⟩, hall⟩
    · simp [hpending.runs, hpending.not_allAccepted]
    · simp [hruns, hall, hsome]

/-- What an operation is run with by the next message. -/
theorem collect_right {msg : Msg} {fired : List (Dependencies Msg)}
    (hruns : (s.collect isSuccess (history ++ [msg])).runs =
      (s.collect isSuccess history).runs ++ fired) :
    ∀ deps ∈ fired, RightDependencies isSuccess s history msg deps := by
  intro deps hdeps
  rcases eq_or_ne s.requirements [] with hnone | hsome
  · rw [collect_idle hnone, collect_idle hnone] at hruns
    simp_all
  · rcases collect_spec isSuccess hsome history with hpending | ⟨hexecuted, -, -⟩
    · rw [collect_append, hpending.runs, List.nil_append] at hruns
      rcases process_spec hpending msg with hpending | hran
      · rw [hpending.runs] at hruns
        simp [← hruns] at hdeps
      · obtain ⟨-, seen, hseen, hall, deps', hruns', hkept, hnames⟩ := hran
        obtain rfl : deps = deps' := by simpa [hruns', ← hruns] using hdeps
        exact rightDependencies hseen hall hkept hnames
    · rw [collect_append, CollectorSetup.process, foldl_executed _ hexecuted] at hruns
      simp_all

end Collector

/-! ### The loop of the dispatcher -/

variable {Event : Type} {fs : FileSystem} {h : Hashing}

namespace FileDispatcher
variable {op : ImportOps Event} {d d' : FileDispatcher Event}

theorem run_nil (hqueue : d.publishQueue = []) : d.run fs h op = .ok d := by
  rw [run, dif_pos hqueue]

theorem run_step (hqueue : d.publishQueue ≠ []) (hd : d.iterate fs h op = .ok d') :
    d.run fs h op = d'.run fs h op := by
  rw [run, dif_neg hqueue]
  split
  · simp_all
  · simp_all

/-- Some iterations lead from the first state to the second. -/
inductive Reaches (fs : FileSystem) (h : Hashing) (op : ImportOps Event)
    (d : FileDispatcher Event) : FileDispatcher Event → Prop where
  | refl : Reaches fs h op d d
  | step {d' d''} : Reaches fs h op d d' → d'.publishQueue ≠ [] →
      d'.iterate fs h op = .ok d'' → Reaches fs h op d d''

theorem Reaches.head {d'' : FileDispatcher Event} (hqueue : d.publishQueue ≠ [])
    (hd : d.iterate fs h op = .ok d') (hreaches : Reaches fs h op d' d'') :
    Reaches fs h op d d'' := by
  induction hreaches with
  | refl => exact .step .refl hqueue hd
  | step _ hne hstep ih => exact ih.step hne hstep

/-- What ends the loop: an empty queue, or a file event whose files cannot be read. -/
theorem run_reaches (fs : FileSystem) (h : Hashing) (op : ImportOps Event)
    (d : FileDispatcher Event) :
    (∃ d', d.run fs h op = .ok d' ∧ Reaches fs h op d d' ∧ d'.publishQueue = []) ∨
      ∃ e d', d.run fs h op = .error e ∧ Reaches fs h op d d' ∧
        ∃ m ∈ d'.publishQueue, importFiles fs h m = .error e := by
  fun_induction run fs h op d with
  | case1 d hqueue => exact .inl ⟨d, rfl, .refl, hqueue⟩
  | case2 d hqueue e hd =>
    refine .inr ⟨e, d, rfl, .refl, ?_⟩
    rw [iterate] at hd
    cases hq : d.publishQueue with
    | nil => exact absurd hq hqueue
    | cons m rest =>
      refine ⟨m, List.mem_cons_self, ?_⟩
      rw [hq] at hd
      dsimp only at hd
      cases hfiles : importFiles fs h m with
      | error e' =>
        rw [hfiles] at hd
        cases hd
        rfl
      | ok published =>
        rw [hfiles] at hd
        cases hd
  | case3 d hqueue d' hd _ ih =>
    rcases ih with ⟨d'', hrun, hreaches, hempty⟩ | ⟨e, d'', hrun, hreaches, hfiles⟩
    · exact .inl ⟨d'', hrun, hreaches.head hqueue hd, hempty⟩
    · exact .inr ⟨e, d'', hrun, hreaches.head hqueue hd, hfiles⟩

/-- An iteration is one message more for every collector. -/
theorem iterate_collects {setups : ℕ → CollectorSetup (ImportMsg Event)}
    (hcollects : Collects setups ImportMsg.isSuccess d)
    (hd : d.iterate fs h (fun i => (setups i).op) = .ok d') :
    Collects setups ImportMsg.isSuccess d' := by
  rw [iterate] at hd
  cases hq : d.publishQueue with
  | nil =>
    rw [hq] at hd
    obtain rfl := Except.ok.inj hd
    exact hcollects
  | cons m rest =>
    rw [hq] at hd
    obtain ⟨published, -, hd⟩ := bind_ok hd
    obtain rfl := Except.ok.inj hd
    obtain ⟨himporters, hprocessed, hcollectors⟩ := foldl_deliver ImportMsg.isSuccess
      (fun i => (setups i).op) m d.importers
      { d with publishQueue := rest ++ published, processed := d.processed ++ [m] }
    refine ⟨fun i => ?_, fun i => ?_⟩
    · rw [himporters]
      exact hcollects.subscribed i
    · rw [hprocessed, hcollectors i, hcollects.subscribed i, collect_append,
        ← hcollects.collected i]
      rfl

end FileDispatcher

/-! ### Registration -/

theorem subscribed_from (setups : List (CollectorSetup (ImportMsg Event))) (n i : ℕ) :
    (((setups.zipIdx n).flatMap fun s => s.1.requirements.map fun req =>
        (⟨s.2, req⟩ : Importer (ImportMsg Event))).filter (·.collector == i)).map (·.requirement) =
      if n ≤ i then (setupAt setups (i - n)).requirements else [] := by
  induction setups generalizing n with
  | nil => simp [setupAt, noCollector]
  | cons s setups ih =>
    rw [List.zipIdx_cons, List.flatMap_cons, List.filter_append, List.map_append, ih]
    have hself : ((s.requirements.map fun req => (⟨n, req⟩ : Importer (ImportMsg Event))).filter
        (·.collector == i)).map (·.requirement) = if n = i then s.requirements else [] := by
      rw [List.filter_map, List.map_map]
      rcases eq_or_ne n i with hi | hi <;> simp [Function.comp_def, hi]
    rw [hself]
    rcases lt_trichotomy n i with hi | rfl | hi
    · have hsub : i - n = i - (n + 1) + 1 := by omega
      simp [hi.ne, hi.le, Nat.succ_le_of_lt hi, hsub, setupAt]
    · simp [setupAt]
    · simp [hi.ne', Nat.not_le.mpr hi, Nat.not_le.mpr (Nat.lt_succ_of_lt hi)]

theorem initDispatcher_collects (setups : List (CollectorSetup (ImportMsg Event))) :
    Collects (setupAt setups) ImportMsg.isSuccess (initDispatcher setups) := by
  refine ⟨fun i => ?_, fun i => rfl⟩
  exact (subscribed_from setups 0 i).trans (if_pos (Nat.zero_le i))

/-- The dispatcher after the dummy message. -/
def askedDispatcher (setups : List (CollectorSetup (ImportMsg Event))) : FileDispatcher Event :=
  { initDispatcher setups with processed := [.motisSuccess] }

/-- No importer does anything with the dummy message. -/
theorem foldl_deliver_motisSuccess (op : ImportOps Event)
    (importers : List (Importer (ImportMsg Event))) (d : FileDispatcher Event) :
    importers.foldl (ImportDispatcher.deliver ImportMsg.isSuccess op .motisSuccess) d = d := by
  induction importers with
  | nil => rfl
  | cons a importers ih =>
    have hsame : d.deliver ImportMsg.isSuccess op .motisSuccess a = d := by
      simp [ImportDispatcher.deliver, EventCollector.onMsg, ImportMsg.isSuccess]
    rw [List.foldl_cons, hsame, ih]

theorem run_motisSuccess (setups : List (CollectorSetup (ImportMsg Event))) (op : ImportOps Event) :
    FileDispatcher.run fs h op ((initDispatcher setups).publish .motisSuccess) =
      .ok (askedDispatcher setups) := by
  have hiterate : FileDispatcher.iterate fs h op ((initDispatcher setups).publish .motisSuccess) =
      .ok (askedDispatcher setups) := by
    exact congrArg Except.ok (foldl_deliver_motisSuccess op _ _)
  rw [FileDispatcher.run_step (List.cons_ne_nil _ _) hiterate, FileDispatcher.run_nil rfl]

/-! ### The messages -/

/-- A processed message, with the events of its files and the operations it has let run. -/
structure ImportStep (Event : Type) where
  msg : ImportMsg Event
  files : List (ImportMsg Event)
  fired : List (ℕ × Dependencies (ImportMsg Event))

/-- The events a step publishes. -/
def ImportStep.publishes (setups : List (CollectorSetup (ImportMsg Event))) (s : ImportStep Event) :
    List (ImportMsg Event) :=
  s.files ++ s.fired.flatMap fun f => (setupAt setups f.1).op f.2

/-- The steps so far explain all messages and all runs of operations. -/
structure Progress (fs : FileSystem) (h : Hashing)
    (setups : List (CollectorSetup (ImportMsg Event))) (paths : List ImportPath)
    (steps : List (ImportStep Event)) (d : FileDispatcher Event) : Prop where
  processed : d.processed = .motisSuccess :: steps.map (·.msg)
  /-- First in, first out. -/
  queue : steps.map (·.msg) ++ d.publishQueue =
    .fileEvent paths :: steps.flatMap (·.publishes setups)
  /-- A message is processed after it was published. -/
  caused : ∀ before s after, steps = before ++ s :: after →
    s.msg ∈ .fileEvent paths :: before.flatMap (·.publishes setups)
  files : ∀ s ∈ steps, importFiles fs h s.msg = .ok s.files
  runs : ∀ i, (d.collectors i).runs = ((steps.flatMap (·.fired)).filter (·.1 == i)).map (·.2)
  /-- An operation is run by the message that completes what was accepted. -/
  right : ∀ before s after, steps = before ++ s :: after → ∀ f ∈ s.fired,
    RightDependencies ImportMsg.isSuccess (setupAt setups f.1)
      (.motisSuccess :: before.map (·.msg)) s.msg f.2
  collects : Collects (setupAt setups) ImportMsg.isSuccess d

section Progress
variable {setups : List (CollectorSetup (ImportMsg Event))} {paths : List ImportPath}
  {steps : List (ImportStep Event)} {d d' : FileDispatcher Event}

theorem progress_start (fs : FileSystem) (h : Hashing)
    (setups : List (CollectorSetup (ImportMsg Event))) (paths : List ImportPath) :
    Progress fs h setups paths [] ((askedDispatcher setups).publish (.fileEvent paths)) := by
  have hcollects := initDispatcher_collects setups
  refine ⟨rfl, rfl, ?_, by simp, fun i => rfl, ?_, hcollects.subscribed, fun i => ?_⟩
  · intro before s after hsplit
    simp at hsplit
  · intro before s after hsplit
    simp at hsplit
  · have hasked : (setupAt setups i).collect ImportMsg.isSuccess [.motisSuccess] =
        (setupAt setups i).init := by
      have hsame : ∀ (reqs : List (Requirement (ImportMsg Event))) (c : EventCollector _),
          reqs.foldl (fun c req =>
            (c.onMsg ImportMsg.isSuccess (setupAt setups i).op req .motisSuccess).1) c = c := by
        intro reqs c
        induction reqs with
        | nil => rfl
        | cons req reqs ih => exact ih
      exact hsame _ _
    exact hasked.symm

/-- A step is the last one or one of those before. -/
theorem split_concat {steps before after : List (ImportStep Event)} {last s : ImportStep Event}
    (hsplit : steps ++ [last] = before ++ s :: after) :
    (before = steps ∧ s = last) ∨ ∃ after', steps = before ++ s :: after' := by
  rcases List.eq_nil_or_concat after with rfl | ⟨after, last', rfl⟩
  · obtain ⟨rfl, hs⟩ := List.append_inj' hsplit rfl
    exact .inl ⟨rfl, (List.singleton_inj.mp hs).symm⟩
  · rw [List.concat_eq_append, ← List.cons_append, ← List.append_assoc] at hsplit
    exact .inr ⟨after, (List.append_inj' hsplit rfl).1⟩

/-- One iteration is one step more. -/
theorem Progress.step (hprogress : Progress fs h setups paths steps d)
    (hqueue : d.publishQueue ≠ [])
    (hd : d.iterate fs h (fun i => (setupAt setups i).op) = .ok d') :
    ∃ s, Progress fs h setups paths (steps ++ [s]) d' := by
  obtain ⟨m, published, fired, hiterated⟩ := FileDispatcher.iterate_spec hd hqueue
  obtain ⟨rest, hpopped, hrest⟩ := hiterated.popped
  have hcollects := FileDispatcher.iterate_collects hprogress.collects hd
  refine ⟨⟨m, published, fired⟩, ?_, ?_, ?_, ?_, fun i => ?_, ?_, hcollects⟩
  · rw [hiterated.processed, hprogress.processed]
    simp
  · have hbefore := hprogress.queue
    rw [hpopped] at hbefore
    rw [hrest, List.map_append, List.flatMap_append]
    simp only [List.map_cons, List.map_nil, List.flatMap_cons, List.flatMap_nil, List.append_nil]
    calc steps.map (·.msg) ++ [m] ++ (rest ++ published ++ fired.flatMap fun f =>
          (setupAt setups f.1).op f.2)
        = (steps.map (·.msg) ++ m :: rest) ++
            (published ++ fired.flatMap fun f => (setupAt setups f.1).op f.2) := by simp
      _ = _ := by
        rw [hbefore]
        rfl
  · intro before s after hsplit
    rcases split_concat hsplit with ⟨rfl, rfl⟩ | ⟨after, hsteps⟩
    · rw [← hprogress.queue, hpopped]
      simp
    · exact hprogress.caused before s after hsteps
  · intro s hs
    rcases List.mem_append.mp hs with hs | hs
    · exact hprogress.files s hs
    · obtain rfl := List.mem_singleton.mp hs
      exact hiterated.files
  · rw [hiterated.runs, hprogress.runs]
    simp
  · intro before s after hsplit f hf
    rcases split_concat hsplit with ⟨rfl, rfl⟩ | ⟨after, hsteps⟩
    · have hruns := hiterated.runs f.1
      rw [hcollects.collected, hprogress.collects.collected, hiterated.processed] at hruns
      have hright := collect_right hruns f.2
        (List.mem_map.mpr ⟨f, List.mem_filter.mpr ⟨hf, by simp⟩, rfl⟩)
      rwa [hprogress.processed] at hright
    · exact hprogress.right before s after hsteps f hf

theorem Progress.reaches (hprogress : Progress fs h setups paths steps d)
    (hreaches : FileDispatcher.Reaches fs h (fun i => (setupAt setups i).op) d d') :
    ∃ steps', Progress fs h setups paths steps' d' := by
  induction hreaches with
  | refl => exact ⟨steps, hprogress⟩
  | step _ hqueue hd ih =>
    obtain ⟨steps', hprogress'⟩ := ih
    obtain ⟨s, hstep⟩ := hprogress'.step hqueue hd
    exact ⟨steps' ++ [s], hstep⟩

end Progress

/-- How an import that is not stopped ends. -/
structure Imported (fs : FileSystem) (h : Hashing)
    (setups : List (CollectorSetup (ImportMsg Event))) (paths : List ImportPath)
    (d : FileDispatcher Event) : Prop where
  drained : d.publishQueue = []
  explained : ∃ steps, Progress fs h setups paths steps d
  ran : ∀ i, (d.collectors i).runs.length ≤ 1 ∧ ((d.collectors i).runs ≠ [] ↔
    (setupAt setups i).requirements ≠ [] ∧
      AllAccepted ImportMsg.isSuccess (setupAt setups i) d.processed)

theorem Progress.ran {setups : List (CollectorSetup (ImportMsg Event))} {paths : List ImportPath}
    {steps : List (ImportStep Event)} {d : FileDispatcher Event}
    (hprogress : Progress fs h setups paths steps d) (i : ℕ) :
    (d.collectors i).runs.length ≤ 1 ∧ ((d.collectors i).runs ≠ [] ↔
      (setupAt setups i).requirements ≠ [] ∧
        AllAccepted ImportMsg.isSuccess (setupAt setups i) d.processed) := by
  rw [hprogress.collects.collected i]
  exact collect_ran ImportMsg.isSuccess (setupAt setups i) d.processed

/-- The dummy message is out of the way before the import paths are read. -/
theorem runImport_eq (fs : FileSystem) (h : Hashing)
    (setups : List (CollectorSetup (ImportMsg Event))) (importPaths : List String) :
    runImport fs h setups importPaths = makeFileEvent Event fs importPaths >>= fun m =>
      FileDispatcher.run fs h (fun i => (setupAt setups i).op)
        ((askedDispatcher setups).publish m) := by
  rw [runImport, run_motisSuccess]
  rfl

theorem makeFileEvent_cases (Event : Type) (fs : FileSystem) (importPaths : List String) :
    (∃ e, makeFileEvent Event fs importPaths = .error e) ∨
      ∃ paths, makeFileEvent Event fs importPaths = .ok (.fileEvent paths) := by
  rw [makeFileEvent]
  cases importPaths.mapM (splitImportPath fs.fileExists) with
  | error e => exact .inl ⟨.importPath e, rfl⟩
  | ok paths => exact .inr ⟨paths, rfl⟩

theorem runImport_cases (fs : FileSystem) (h : Hashing)
    (setups : List (CollectorSetup (ImportMsg Event))) (importPaths : List String) :
    (∃ e, makeFileEvent Event fs importPaths = .error e ∧
      runImport fs h setups importPaths = .error e) ∨
    ∃ paths, makeFileEvent Event fs importPaths = .ok (.fileEvent paths) ∧
      ((∃ d, runImport fs h setups importPaths = .ok d ∧ Imported fs h setups paths d) ∨
        ∃ e d steps, runImport fs h setups importPaths = .error e ∧
          Progress fs h setups paths steps d ∧
          ∃ m ∈ d.publishQueue, importFiles fs h m = .error e) := by
  rw [runImport_eq]
  rcases makeFileEvent_cases Event fs importPaths with ⟨e, he⟩ | ⟨paths, hpaths⟩
  · refine .inl ⟨e, he, ?_⟩
    rw [he]
    rfl
  · refine .inr ⟨paths, hpaths, ?_⟩
    rw [hpaths]
    have hstart := progress_start fs h setups paths
    rcases FileDispatcher.run_reaches fs h (fun i => (setupAt setups i).op)
      ((askedDispatcher setups).publish (.fileEvent paths)) with
      ⟨d, hrun, hreaches, hempty⟩ | ⟨e, d, hrun, hreaches, hfiles⟩
    · obtain ⟨steps, hprogress⟩ := hstart.reaches hreaches
      exact .inl ⟨d, hrun, hempty, ⟨steps, hprogress⟩, hprogress.ran⟩
    · obtain ⟨steps, hprogress⟩ := hstart.reaches hreaches
      exact .inr ⟨e, d, steps, hrun, hprogress, hfiles⟩

end Motis.Bootstrap
