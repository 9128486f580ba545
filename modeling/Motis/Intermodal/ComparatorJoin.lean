import Motis.Intermodal.Comparator

/-! What the comparator compares.

    When the ids of each file are distinct, the queues hold what the lines read so far have told
    and has not been compared, whatever the order of the lines. So every query that is in all files
    is compared once, in the round that reads its last line. -/

namespace Motis.Intermodal.Comparator
open Journey

/-! ### Files -/

def messages {α : Type} (lines : List (Line α)) : List (ℤ × α) := lines.filterMap Line.message?

/-- The lines of the first rounds. -/
def Files.take (files : Files) (k : ℕ) : Files :=
  { files with
    queries := fun i => (files.queries i).take k
    responses := fun i => (files.responses i).take k }

def Files.drop (files : Files) (k : ℕ) : Files :=
  { files with
    queries := fun i => (files.queries i).drop k
    responses := fun i => (files.responses i).drop k }

/-- No id is twice in a file. -/
structure Files.Distinct (files : Files) (n : ℕ) : Prop where
  queries : ∀ i < n, ((messages (files.queries i)).map (·.1)).Nodup
  responses : ∀ i < n, ((messages (files.responses i)).map (·.1)).Nodup

/-- A query that has been read and answered in all files. -/
def Files.Common (files : Files) (n : ℕ) (id : ℤ) : Prop :=
  ∀ i < n, id ∈ (messages (files.queries i)).map (·.1) ∧
    id ∈ (messages (files.responses i)).map (·.1)

/-- What the comparison of a query comes to. -/
def Files.result (files : Files) (n : ℕ) (id : ℤ) : Except Error (List Bool) :=
  check ((List.range n).filterMap fun i => (messages (files.responses i)).lookup id)
    ((List.range n).filterMap fun i => (messages (files.queries i)).lookup id)

def Files.agrees (files : Files) (n : ℕ) (id : ℤ) : Bool :=
  match files.result n id with
  | .ok oks => oks.all (·)
  | .error _ => false

section Lines
variable {α : Type} {lines : List (Line α)} {k : ℕ}

theorem messages_take_succ : messages (lines.take (k + 1)) =
    messages (lines.take k) ++ ((lines.drop k).head?.bind Line.message?).toList := by
  rw [messages, messages, List.take_add_one, List.filterMap_append, List.head?_drop]
  cases lines[k]? with
  | none => simp
  | some line => cases h : line.message? <;> simp [h]

theorem messages_take_isPrefix (lines : List (Line α)) (k : ℕ) :
    messages (lines.take k) <+: messages lines :=
  (List.take_prefix k lines).filterMap _

theorem nodup_take (h : ((messages lines).map (·.1)).Nodup) (k : ℕ) :
    ((messages (lines.take k)).map (·.1)).Nodup :=
  h.sublist ((messages_take_isPrefix lines k).map _).sublist

theorem headId_drop {id : ℤ} : headId (lines.drop k) = some id ↔
    ∃ m, (lines.drop k).head?.bind Line.message? = some (id, m) := by
  rw [headId, Option.map_eq_some_iff]
  constructor
  · rintro ⟨⟨_, m⟩, hm, rfl⟩
    exact ⟨m, hm⟩
  · rintro ⟨m, hm⟩
    exact ⟨_, hm, rfl⟩

/-- An id that has been read by the next round, and not before, is read in it. -/
theorem headId_of_mem {id : ℤ} (h : id ∈ (messages (lines.take (k + 1))).map (·.1))
    (hnew : id ∉ (messages (lines.take k)).map (·.1)) : headId (lines.drop k) = some id := by
  rw [messages_take_succ, List.map_append, List.mem_append] at h
  rcases h with h | h
  · exact absurd h hnew
  · obtain ⟨⟨_, m⟩, hm, rfl⟩ := List.mem_map.mp h
    exact headId_drop.mpr ⟨m, Option.mem_toList.mp hm⟩

/-- The message of an id is the one of the file. -/
theorem lookup_take (h : ((messages lines).map (·.1)).Nodup) {id : ℤ}
    (hmem : id ∈ (messages (lines.take k)).map (·.1)) :
    ∃ m, (messages (lines.take k)).lookup id = some m ∧ (messages lines).lookup id = some m := by
  obtain ⟨⟨_, m⟩, hm, rfl⟩ := List.mem_map.mp hmem
  exact ⟨m, (InsertionMap.lookup_eq_some (nodup_take h k)).mpr hm,
    (InsertionMap.lookup_eq_some h).mpr ((messages_take_isPrefix lines k).subset hm)⟩

theorem lookup_eq_none {queue : List (ℤ × α)} {id : ℤ} :
    queue.lookup id = none ↔ id ∉ queue.map (·.1) := by
  rw [List.lookup_eq_none_iff]
  constructor
  · rintro h hmem
    obtain ⟨e, he, rfl⟩ := List.mem_map.mp hmem
    simpa using h e he
  · intro h e he
    simpa using fun heq => h (List.mem_map.mpr ⟨e, he, heq.symm⟩)

theorem lookup_filter {queue : List (ℤ × α)} (hnodup : (queue.map (·.1)).Nodup)
    (compared : List ℤ) (id : ℤ) :
    (queue.filter (·.1 ∉ compared)).lookup id =
      if id ∈ compared then none else queue.lookup id := by
  split_ifs with hid
  · rw [lookup_eq_none]
    rintro hmem
    obtain ⟨e, he, rfl⟩ := List.mem_map.mp hmem
    simpa [hid] using (List.mem_filter.mp he).2
  · cases hlookup : queue.lookup id with
    | none =>
      rw [lookup_eq_none] at hlookup ⊢
      exact fun hmem => hlookup (((List.filter_sublist (l := queue)).map _).subset hmem)
    | some m =>
      rw [InsertionMap.lookup_eq_some hnodup] at hlookup
      rw [InsertionMap.lookup_eq_some (hnodup.sublist (List.filter_sublist.map _))]
      exact List.mem_filter.mpr ⟨hlookup, by simpa using hid⟩

/-- A line is put into the queue. -/
theorem enqueue_take (h : ((messages lines).map (·.1)).Nodup) (compared : List ℤ)
    (hcompared : ∀ id ∈ compared, id ∈ (messages (lines.take k)).map (·.1)) :
    enqueue ((messages (lines.take k)).filter (·.1 ∉ compared)) (lines.drop k).head? =
      (messages (lines.take (k + 1))).filter (·.1 ∉ compared) := by
  have hnodup := nodup_take h (k + 1)
  rw [enqueue, messages_take_succ]
  rw [messages_take_succ] at hnodup
  cases hline : (lines.drop k).head?.bind Line.message? with
  | none => simp
  | some e =>
    rw [hline, Option.toList_some, List.map_append, List.nodup_append] at hnodup
    have hnew : e.1 ∉ (messages (lines.take k)).map (·.1) := fun hmem =>
      hnodup.2.2 e.1 hmem e.1 (by simp) rfl
    have hkeep : e.1 ∉ compared := fun hmem => hnew (hcompared e.1 hmem)
    have hqueue : e.1 ∉ ((messages (lines.take k)).filter (·.1 ∉ compared)).map (·.1) :=
      fun hmem => hnew ((List.filter_sublist.map _).subset hmem)
    show InsertionMap.set _ e.1 e.2 = _
    rw [InsertionMap.set_of_notMem hqueue, Option.toList_some, List.filter_append]
    simp [hkeep]

end Lines

/-! ### The join -/

/-- The state after some rounds: what has been read and not been compared, and the counts of what
    has been compared. -/
structure Joined (n : ℕ) (files : Files) (k : ℕ) (compared : List ℤ) (st : State) : Prop where
  queries : ∀ i < n, st.queuedQueries i = messages ((files.take k).queries i)
  msgs : ∀ i < n, st.queuedMsgs i =
    (messages ((files.take k).responses i)).filter (·.1 ∉ compared)
  common : ∀ id ∈ compared, (files.take k).Common n id
  nodup : compared.Nodup
  msgCount : st.msgCount = compared.length
  errors : st.errors = compared.countP fun id => !files.agrees n id

section Join
variable {n k : ℕ} {files : Files} {compared : List ℤ} {st : State}

theorem Files.Common.mono {k' : ℕ} (hle : k ≤ k') {id : ℤ} (h : (files.take k).Common n id) :
    (files.take k').Common n id := by
  intro i hi
  have htaken : ∀ {α : Type} (lines : List (Line α)),
      messages (lines.take k) <+: messages (lines.take k') := fun lines =>
    (List.take_prefix_take_left hle).filterMap _
  exact ⟨((htaken _).map _).subset (h i hi).1, ((htaken _).map _).subset (h i hi).2⟩

/-- A round reads the next line of every file. -/
theorem Joined.readLines (h : Joined n files k compared st) (hwith : files.withQueries = true)
    (hdistinct : files.Distinct n) :
    Joined n files (k + 1) compared (st.readLines (files.drop k)) := by
  refine ⟨fun i hi => ?_, fun i hi => ?_, fun id hid => ?_, h.nodup, h.msgCount, h.errors⟩
  · have hwith' : (files.drop k).withQueries = true := hwith
    simp only [State.readLines, if_pos hwith', h.queries i hi]
    have hread := enqueue_take (k := k) (hdistinct.queries i hi) [] (by simp)
    show enqueue (messages ((files.queries i).take k)) ((files.queries i).drop k).head? =
      messages ((files.queries i).take (k + 1))
    simpa using hread
  · simp only [State.readLines, h.msgs i hi]
    exact enqueue_take (hdistinct.responses i hi) compared fun id hid => (h.common id hid i hi).2
  · exact (h.common id hid).mono (Nat.le_succ k)

/-- What is found of a query. -/
theorem Joined.find (h : Joined n files k compared st) (hdistinct : files.Distinct n) {id : ℤ}
    (hid : (files.take k).Common n id) (hnew : id ∉ compared) {i : ℕ} (hi : i < n) :
    ∃ m q, st.find true id i = some (m, some q) ∧
      (messages (files.responses i)).lookup id = some m ∧
      (messages (files.queries i)).lookup id = some q := by
  obtain ⟨m, hm, hm'⟩ := lookup_take (hdistinct.responses i hi) (hid i hi).2
  obtain ⟨q, hq, hq'⟩ := lookup_take (hdistinct.queries i hi) (hid i hi).1
  refine ⟨m, q, ?_, hm', hq'⟩
  have hmsg : (st.queuedMsgs i).lookup id = some m := by
    rw [h.msgs i hi]
    exact (lookup_filter (nodup_take (hdistinct.responses i hi) k) compared id).trans
      ((if_neg hnew).trans hm)
  have hquery : (st.queuedQueries i).lookup id = some q := by
    rw [h.queries i hi]
    exact hq
  simp [State.find, hmsg, hquery]

theorem Joined.find_none (h : Joined n files k compared st) (hdistinct : files.Distinct n)
    {id : ℤ} {i : ℕ} (hi : i < n)
    (hid : id ∈ compared ∨ id ∉ (messages ((files.take k).queries i)).map (·.1) ∨
      id ∉ (messages ((files.take k).responses i)).map (·.1)) :
    st.find true id i = none := by
  have hmsgs := h.msgs i hi
  have hlookup := lookup_filter (nodup_take (hdistinct.responses i hi) k) compared id
  simp only [Files.take] at hmsgs
  rw [← hmsgs] at hlookup
  rcases hid with hid | hid | hid
  · rw [if_pos hid] at hlookup
    simp [State.find, hlookup]
  · have hquery : (st.queuedQueries i).lookup id = none := by
      rw [h.queries i hi]
      exact lookup_eq_none.mpr hid
    simp [State.find, hquery]
  · have hnone : (messages ((files.responses i).take k)).lookup id = none :=
      lookup_eq_none.mpr hid
    rw [hnone, ite_self] at hlookup
    simp [State.find, hlookup]

/-- An id that has been compared or is missing somewhere is left. -/
theorem Joined.joinId_skip (h : Joined n files k compared st) (hdistinct : files.Distinct n)
    {id : ℤ} (hn : 0 < n) (hid : id ∈ compared ∨ ¬(files.take k).Common n id) :
    joinId true n st id = .ok st := by
  have hmissing : ∃ i < n, st.find true id i = none := by
    rcases hid with hid | hid
    · exact ⟨0, hn, h.find_none hdistinct hn (.inl hid)⟩
    · rw [Files.Common] at hid
      push Not at hid
      obtain ⟨i, hi, hmissing⟩ := hid
      refine ⟨i, hi, h.find_none hdistinct hi (.inr ?_)⟩
      by_cases hquery : id ∈ (messages ((files.take k).queries i)).map (·.1)
      · exact .inr (hmissing hquery)
      · exact .inl hquery
  obtain ⟨i, hi, hnone⟩ := hmissing
  rw [joinId, Fallible.mapM_eq_none (List.mem_range.mpr hi) hnone]

/-- What is found in all files. -/
theorem mapM_found {α β γ : Type} {l : List α} {f : α → Option (β × Option γ)} {g : α → Option β}
    {g' : α → Option γ}
    (h : ∀ a ∈ l, ∃ b c, f a = some (b, some c) ∧ g a = some b ∧ g' a = some c) :
    ∃ found, l.mapM f = some found ∧ found.map (·.1) = l.filterMap g ∧
      found.filterMap (·.2) = l.filterMap g' := by
  induction l with
  | nil => exact ⟨[], rfl, rfl, rfl⟩
  | cons a l ih =>
    obtain ⟨ha, hl⟩ := List.forall_mem_cons.mp h
    obtain ⟨b, c, hf, hg, hg'⟩ := ha
    obtain ⟨found, hmapM, hfst, hsnd⟩ := ih hl
    exact ⟨(b, some c) :: found, by simp [List.mapM_cons, hf, hmapM], by simp [hg, hfst],
      by simp [hg', hsnd]⟩

/-- An id that is in all files is compared. -/
theorem Joined.joinId_compare (h : Joined n files k compared st) (hdistinct : files.Distinct n)
    {id : ℤ} (hid : (files.take k).Common n id) (hnew : id ∉ compared) {oks : List Bool}
    (hresult : files.result n id = .ok oks) :
    ∃ st', joinId true n st id = .ok st' ∧ Joined n files k (compared ++ [id]) st' := by
  obtain ⟨found, hmapM, hmsgs, hqueries⟩ := mapM_found fun i (hi : i ∈ List.range n) =>
    h.find hdistinct hid hnew (List.mem_range.mp hi)
  have hcheck : check (found.map (·.1)) (found.filterMap (·.2)) = .ok oks := by
    rwa [hmsgs, hqueries]
  have hagrees : files.agrees n id = oks.all (·) := by
    rw [Files.agrees, hresult]
  refine ⟨st.count id ((found.map (·.1)).headD []) oks, ?_, h.queries, fun i hi => ?_,
    fun id' hid' => ?_, ?_, ?_, ?_⟩
  · rw [joinId, hmapM]
    exact Fallible.ok_bind hcheck
  · show (st.queuedMsgs i).filter (·.1 ≠ id) = _
    rw [h.msgs i hi, List.filter_filter]
    simp [and_comm, not_or]
  · rcases List.mem_append.mp hid' with hid' | hid'
    · exact h.common id' hid'
    · rwa [List.mem_singleton.mp hid']
  · refine List.nodup_append.mpr ⟨h.nodup, List.nodup_singleton id, fun a ha b hb heq => ?_⟩
    rw [heq, List.mem_singleton.mp hb] at ha
    exact hnew ha
  · simp [State.count, h.msgCount]
  · simp [State.count, h.errors, hagrees, List.countP_append, List.countP_singleton]

/-- The loop over the ids that have been read: those that are in all files are compared. -/
theorem Joined.joinIds (h : Joined n files k compared st) (hdistinct : files.Distinct n)
    (hn : 0 < n) (hresult : ∀ id, files.Common n id → ∃ oks, files.result n id = .ok oks)
    (hcommon : ∀ id, (files.take k).Common n id → files.Common n id) (read : List ℤ)
    (hread : ∀ id, (files.take k).Common n id → id ∈ compared ∨ id ∈ read) :
    ∃ st' compared', read.foldlM (joinId true n) st = .ok st' ∧
      Joined n files k compared' st' ∧ ∀ id, (files.take k).Common n id → id ∈ compared' := by
  induction read generalizing compared st with
  | nil => exact ⟨st, compared, rfl, h, fun id hid => (hread id hid).resolve_right List.not_mem_nil⟩
  | cons id read ih =>
    by_cases hid : id ∈ compared ∨ ¬(files.take k).Common n id
    · have hskip := h.joinId_skip hdistinct hn hid
      obtain ⟨st', compared', hfold, hjoined, hall⟩ := ih h fun id' hid' => by
        rcases hread id' hid' with hmem | hmem
        · exact .inl hmem
        · rcases List.mem_cons.mp hmem with rfl | hmem
          · exact .inl (hid.resolve_right (not_not.mpr hid'))
          · exact .inr hmem
      refine ⟨st', compared', ?_, hjoined, hall⟩
      rw [List.foldlM_cons]
      exact (Fallible.ok_bind hskip).trans hfold
    · rw [not_or, not_not] at hid
      obtain ⟨oks, hoks⟩ := hresult id (hcommon id hid.2)
      obtain ⟨next, hnext, hjoined⟩ := h.joinId_compare hdistinct hid.2 hid.1 hoks
      obtain ⟨st', compared', hfold, hjoined', hall⟩ := ih hjoined fun id' hid' => by
        rcases hread id' hid' with hmem | hmem
        · exact .inl (List.mem_append_left _ hmem)
        · rcases List.mem_cons.mp hmem with rfl | hmem
          · exact .inl (List.mem_append_right _ (List.mem_singleton_self _))
          · exact .inr hmem
      refine ⟨st', compared', ?_, hjoined', hall⟩
      rw [List.foldlM_cons]
      exact (Fallible.ok_bind hnext).trans hfold

theorem Files.common_of_take {id : ℤ} (h : (files.take k).Common n id) : files.Common n id :=
  fun i hi => ⟨((messages_take_isPrefix _ k).map _).subset (h i hi).1,
    ((messages_take_isPrefix _ k).map _).subset (h i hi).2⟩

/-- What is in all files since the last round has been read in it. -/
theorem mem_ids_of_common (hwith : files.withQueries = true) {id : ℤ}
    (hid : (files.take (k + 1)).Common n id) (hnew : ¬(files.take k).Common n id) :
    id ∈ (files.drop k).ids n := by
  rw [Files.Common] at hnew
  push Not at hnew
  obtain ⟨i, hi, hnew⟩ := hnew
  rw [mem_ids]
  refine ⟨i, hi, ?_⟩
  by_cases hquery : id ∈ (messages ((files.take k).queries i)).map (·.1)
  · exact .inr (headId_of_mem (hid i hi).2 (hnew hquery))
  · exact .inl ⟨hwith, headId_of_mem (hid i hi).1 hquery⟩

theorem Files.next_drop (files : Files) (k : ℕ) : (files.drop k).next = files.drop (k + 1) := by
  simp [Files.next, Files.drop, List.tail_drop]

/-- The first round that reads nothing. -/
structure Files.Quiet (files : Files) (n k : ℕ) : Prop where
  quiet : (files.drop k).ids n = []
  before : ∀ k' < k, (files.drop k').ids n ≠ []

/-- All rounds. -/
theorem Joined.rounds {order : List ℤ → List ℤ} (horder : ∀ ids, (order ids).Perm ids) {k : ℕ}
    {compared : List ℤ} {st : State} (h : Joined n files k compared st)
    (hwith : files.withQueries = true) (hdistinct : files.Distinct n) (hn : 0 < n)
    (hresult : ∀ id, files.Common n id → ∃ oks, files.result n id = .ok oks)
    (hall : ∀ id, (files.take k).Common n id → id ∈ compared)
    (hbefore : ∀ k' < k, (files.drop k').ids n ≠ []) :
    ∃ last st' compared', rounds order n (files.drop k) st = .ok st' ∧ files.Quiet n last ∧
      Joined n files (last + 1) compared' st' ∧
      ∀ id, (files.take (last + 1)).Common n id → id ∈ compared' := by
  have hlines := h.readLines hwith hdistinct
  rw [Comparator.rounds]
  by_cases hread : (files.drop k).ids n = []
  · rw [if_pos hread]
    refine ⟨k, _, compared, rfl, ⟨hread, hbefore⟩, hlines, fun id hid => ?_⟩
    by_contra hnew
    have hmem := mem_ids_of_common hwith hid fun hold => hnew (hall id hold)
    rw [hread] at hmem
    cases hmem
  · rw [if_neg hread]
    obtain ⟨next, compared', hfold, hjoined, hall'⟩ := hlines.joinIds hdistinct hn hresult
      (fun id hid => Files.common_of_take hid) (order ((files.drop k).ids n))
      fun id hid => by
        by_cases hold : (files.take k).Common n id
        · exact .inl (hall id hold)
        · exact .inr ((horder _).mem_iff.mpr (mem_ids_of_common hwith hid hold))
    have hwith' : (files.drop k).withQueries = true := hwith
    obtain ⟨last, st', compared'', hrounds, hquiet, hjoined', hall''⟩ :=
      Joined.rounds horder hjoined hwith hdistinct hn hresult hall' fun k' hk' => by
        rcases Nat.lt_succ_iff_lt_or_eq.mp hk' with hlt | rfl
        · exact hbefore k' hlt
        · exact hread
    refine ⟨last, st', compared'', ?_, hquiet, hjoined', hall''⟩
    rw [hwith', Files.next_drop]
    exact (Fallible.ok_bind hfold).trans hrounds
termination_by (files.drop k).size n
decreasing_by
  rw [← Files.next_drop]
  exact size_next_lt hread

end Join

/-! ### The verdict -/

/-- Connections that are the same for a query. -/
def SameConnection : QueryType → Journey → Journey → Prop
  | .pretrip, con, refCon => con.duration = refCon.duration ∧ con.transfers = refCon.transfers ∧
    con.accessibility = refCon.accessibility ∧ departureTime con = departureTime refCon ∧
    arrivalTime con = arrivalTime refCon
  | .ontripFwd, con, refCon => con.transfers = refCon.transfers ∧
    con.accessibility = refCon.accessibility ∧ arrivalTime con = arrivalTime refCon
  | .ontripBwd, con, refCon => con.transfers = refCon.transfers ∧
    con.accessibility = refCon.accessibility ∧ departureTime con = departureTime refCon

theorem SameConnection.refl (queryType : QueryType) (j : Journey) :
    SameConnection queryType j j := by
  cases queryType <;> simp [SameConnection]

theorem hasConnection_iff {connections : List Journey} {refCon : Journey} {queryType : QueryType} :
    hasConnection connections refCon queryType = true ↔
      ∃ con ∈ connections, SameConnection queryType con refCon := by
  cases queryType <;> simp [hasConnection, SameConnection, and_assoc]

/-- As many connections as the reference, and the same ones. -/
structure Agree (queryType : QueryType) (ref r : List Journey) : Prop where
  count : r.length = ref.length
  missing : ∀ j ∈ ref, ∃ con ∈ r, SameConnection queryType con j
  unexpected : ∀ j ∈ r, ∃ con ∈ ref, SameConnection queryType con j

/-- The transports of the journeys lie inside their stops. -/
def Readable (response : Response) : Prop :=
  ∀ j ∈ messageToJourneys response, j.stops ≠ [] ∧ (2 ≤ j.stops.length → Tabulated j)

section Verdict

theorem checkJourney_ok {j : Journey} (h : 2 ≤ j.stops.length → Tabulated j) :
    ∃ verdict, checkJourney j = .ok verdict ∧ (verdict.1 = true ↔ WellFormed j) := by
  obtain ⟨c, hc, hbroken⟩ := checkSections_ok h
  refine ⟨(!(checkTimes j.stops c).broken, (checkTimes j.stops c).reports), ?_, ?_⟩
  · rw [checkJourney]
    exact Fallible.ok_bind hc
  · rw [Bool.not_eq_true', broken_checkTimes, hbroken, wellFormed_iff]

theorem checkJourneys_ok {journeys : List Journey}
    (h : ∀ j ∈ journeys, 2 ≤ j.stops.length → Tabulated j) :
    ∃ ok, checkJourneys journeys = .ok ok ∧ (ok = true ↔ ∀ j ∈ journeys, WellFormed j) := by
  have hverdicts : ∃ verdicts, journeys.mapM checkJourney = .ok verdicts ∧
      (verdicts.all (·.1) = true ↔ ∀ j ∈ journeys, WellFormed j) := by
    induction journeys with
    | nil => exact ⟨[], rfl, by simp⟩
    | cons j journeys ih =>
      obtain ⟨hj, hrest⟩ := List.forall_mem_cons.mp h
      obtain ⟨verdict, hverdict, hwell⟩ := checkJourney_ok hj
      obtain ⟨verdicts, hmapM, hall⟩ := ih hrest
      refine ⟨verdict :: verdicts, ?_, ?_⟩
      · rw [List.mapM_cons]
        exact (Fallible.ok_bind hverdict).trans (Fallible.ok_bind hmapM)
      · rw [List.all_cons, Bool.and_eq_true, hwell, hall, List.forall_mem_cons]
  obtain ⟨verdicts, hmapM, hall⟩ := hverdicts
  exact ⟨_, by rw [checkJourneys, hmapM], hall⟩

theorem checkFile_ok (queryType : QueryType) (ref : List Journey) {response : Response}
    (h : Readable response) : ∃ ok, checkFile queryType ref response = .ok ok ∧
      (ok = true ↔ Agree queryType ref (messageToJourneys response) ∧
        ∀ j ∈ messageToJourneys response, WellFormed j) := by
  obtain ⟨ok, hok, hwell⟩ := checkJourneys_ok fun j hj => (h j hj).2
  refine ⟨_, by rw [checkFile]; exact Fallible.ok_bind hok, ?_⟩
  simp only [Bool.and_eq_true, beq_iff_eq, List.all_eq_true, hasConnection_iff, hwell]
  constructor
  · rintro ⟨⟨⟨hcount, hmissing⟩, hunexpected⟩, hwell⟩
    exact ⟨⟨hcount, hmissing, hunexpected⟩, hwell⟩
  · rintro ⟨⟨hcount, hmissing, hunexpected⟩, hwell⟩
    exact ⟨⟨⟨hcount, hmissing⟩, hunexpected⟩, hwell⟩

/-- What the comparison of the responses to a query finds. -/
theorem check_ok {first : Response} {responses : List Response} (query : Request)
    (queries : List Request) (h : ∀ r ∈ first :: responses, Readable r) :
    ∃ oks, check (first :: responses) (query :: queries) = .ok oks ∧
      (oks.all (·) = true ↔ ∀ r ∈ first :: responses,
        Agree (getQueryType query) (messageToJourneys first) (messageToJourneys r) ∧
          ∀ j ∈ messageToJourneys r, WellFormed j) := by
  obtain ⟨hfirst, hrest⟩ := List.forall_mem_cons.mp h
  obtain ⟨ok, hok, hwell⟩ := checkJourneys_ok fun j hj => (hfirst j hj).2
  have hfiles : ∃ oks, responses.mapM (checkFile (getQueryType query) (messageToJourneys first)) =
      .ok oks ∧ (oks.all (·) = true ↔ ∀ r ∈ responses,
        Agree (getQueryType query) (messageToJourneys first) (messageToJourneys r) ∧
          ∀ j ∈ messageToJourneys r, WellFormed j) := by
    induction responses with
    | nil => exact ⟨[], rfl, by simp⟩
    | cons r responses ih =>
      obtain ⟨hr, hrest⟩ := List.forall_mem_cons.mp hrest
      obtain ⟨ok', hok', hagree⟩ :=
        checkFile_ok (getQueryType query) (messageToJourneys first) hr
      obtain ⟨oks, hmapM, hall⟩ := ih (List.forall_mem_cons.mpr ⟨hfirst, hrest⟩) hrest
      refine ⟨ok' :: oks, ?_, ?_⟩
      · rw [List.mapM_cons]
        exact (Fallible.ok_bind hok').trans (Fallible.ok_bind hmapM)
      · rw [List.all_cons, Bool.and_eq_true, hagree, hall, List.forall_mem_cons]
  obtain ⟨oks, hmapM, hall⟩ := hfiles
  have hself : Agree (getQueryType query) (messageToJourneys first) (messageToJourneys first) :=
    ⟨rfl, fun j hj => ⟨j, hj, .refl _ j⟩, fun j hj => ⟨j, hj, .refl _ j⟩⟩
  refine ⟨ok :: oks, (Fallible.ok_bind hok).trans (Fallible.ok_bind hmapM), ?_⟩
  rw [List.all_cons, Bool.and_eq_true, hwell, hall, List.forall_mem_cons]
  simp [hself]

/-- For a query that is in all files: as many connections in each file as in the first, the same
    ones, and none of them broken. -/
def Files.Same (files : Files) (n : ℕ) (id : ℤ) : Prop :=
  ∀ first query, (messages (files.responses 0)).lookup id = some first →
    (messages (files.queries 0)).lookup id = some query →
      ∀ i < n, ∀ r, (messages (files.responses i)).lookup id = some r →
        Agree (getQueryType query) (messageToJourneys first) (messageToJourneys r) ∧
          ∀ j ∈ messageToJourneys r, WellFormed j

/-- Some file has a response. -/
def Files.Answered (files : Files) (n : ℕ) (id : ℤ) : Prop :=
  ∃ i < n, id ∈ (messages (files.responses i)).map (·.1)

structure Files.Readable (files : Files) (n : ℕ) : Prop where
  response : ∀ i < n, ∀ e ∈ messages (files.responses i), Comparator.Readable e.2

variable {n : ℕ} {files : Files}

theorem exists_lookup {α : Type} {queue : List (ℤ × α)} {id : ℤ} (h : id ∈ queue.map (·.1)) :
    ∃ m, queue.lookup id = some m := by
  cases hlookup : queue.lookup id with
  | none => exact absurd h (lookup_eq_none.mp hlookup)
  | some m => exact ⟨m, rfl⟩

theorem result_ok (hn : 0 < n) (hdistinct : files.Distinct n) (hreadable : files.Readable n)
    {id : ℤ} (hid : files.Common n id) :
    ∃ oks, files.result n id = .ok oks ∧ (oks.all (·) = true ↔ files.Same n id) := by
  obtain ⟨n, rfl⟩ := Nat.exists_eq_succ_of_ne_zero hn.ne'
  obtain ⟨first, hfirst⟩ := exists_lookup (hid 0 hn).2
  obtain ⟨query, hquery⟩ := exists_lookup (hid 0 hn).1
  have hresponses : ((List.range (n + 1)).filterMap fun i =>
      (messages (files.responses i)).lookup id) =
        first :: ((List.range n).map Nat.succ).filterMap fun i =>
          (messages (files.responses i)).lookup id := by
    rw [List.range_succ_eq_map, List.filterMap_cons, hfirst]
  have hqueries : ((List.range (n + 1)).filterMap fun i =>
      (messages (files.queries i)).lookup id) =
        query :: ((List.range n).map Nat.succ).filterMap fun i =>
          (messages (files.queries i)).lookup id := by
    rw [List.range_succ_eq_map, List.filterMap_cons, hquery]
  have hmem : ∀ {r}, (r ∈ (List.range (n + 1)).filterMap fun i =>
      (messages (files.responses i)).lookup id) ↔
        ∃ i < n + 1, (messages (files.responses i)).lookup id = some r := by
    simp [List.mem_filterMap]
  obtain ⟨oks, hcheck, hall⟩ := check_ok query (((List.range n).map Nat.succ).filterMap fun i =>
      (messages (files.queries i)).lookup id) fun r hr => by
    rw [← hresponses] at hr
    obtain ⟨i, hi, hlookup⟩ := hmem.mp hr
    exact hreadable.response i hi _
      ((InsertionMap.lookup_eq_some (hdistinct.responses i hi)).mp hlookup)
  refine ⟨oks, ?_, hall.trans ?_⟩
  · rw [Files.result, hresponses, hqueries]
    exact hcheck
  · rw [← hresponses]
    constructor
    · intro h first' query' hfirst' hquery' i hi r hr
      rw [hfirst, Option.some_inj] at hfirst'
      rw [hquery, Option.some_inj] at hquery'
      subst hfirst' hquery'
      exact h r (hmem.mpr ⟨i, hi, hr⟩)
    · intro h r hr
      obtain ⟨i, hi, hlookup⟩ := hmem.mp hr
      exact h first query hfirst hquery i hi r hlookup

end Verdict

/-! ### The whole run -/

/-- What a run on some lines comes to: the queries that are in all files have been compared, each
    once, and the responses to the others are unmatched. -/
structure Compared (n : ℕ) (files : Files) (st : State) (code : ℕ) : Prop where
  compared : ∃ ids : List ℤ, ids.Nodup ∧ (∀ id, id ∈ ids ↔ files.Common n id) ∧
    st.msgCount = ids.length ∧ ∃ failed : List ℤ, failed.Sublist ids ∧
      (∀ id ∈ ids, id ∈ failed ↔ ¬files.Same n id) ∧ st.errors = failed.length
  unmatched : ∀ id, id ∈ unmatchedMsgs n st ↔ files.Answered n id ∧ ¬files.Common n id
  code : code = 0 ↔ ∀ id, files.Answered n id → files.Common n id ∧ files.Same n id

section Run
variable {n k : ℕ} {files : Files} {compared : List ℤ} {st : State}

/-- The comparison of a query does not depend on what is read after its last line. -/
theorem result_take (hdistinct : files.Distinct n) {id : ℤ} (hid : (files.take k).Common n id) :
    (files.take k).result n id = files.result n id := by
  have hresponses : ∀ i ∈ List.range n, (messages ((files.take k).responses i)).lookup id =
      (messages (files.responses i)).lookup id := fun i hi => by
    obtain ⟨m, htake, hfile⟩ := lookup_take (hdistinct.responses i (List.mem_range.mp hi))
      (hid i (List.mem_range.mp hi)).2
    exact htake.trans hfile.symm
  have hqueries : ∀ i ∈ List.range n, (messages ((files.take k).queries i)).lookup id =
      (messages (files.queries i)).lookup id := fun i hi => by
    obtain ⟨q, htake, hfile⟩ := lookup_take (hdistinct.queries i (List.mem_range.mp hi))
      (hid i (List.mem_range.mp hi)).1
    exact htake.trans hfile.symm
  rw [Files.result, Files.result, List.filterMap_congr hresponses,
    List.filterMap_congr hqueries]

theorem Files.Distinct.take (h : files.Distinct n) (k : ℕ) : (files.take k).Distinct n :=
  ⟨fun i hi => nodup_take (h.queries i hi) k, fun i hi => nodup_take (h.responses i hi) k⟩

theorem Files.Readable.take (h : files.Readable n) (k : ℕ) : (files.take k).Readable n :=
  ⟨fun i hi e he => h.response i hi e ((messages_take_isPrefix _ k).subset he)⟩

theorem Joined.mem_unmatchedMsgs (h : Joined n files k compared st)
    (hall : ∀ id, (files.take k).Common n id → id ∈ compared) (id : ℤ) :
    id ∈ unmatchedMsgs n st ↔ (files.take k).Answered n id ∧ ¬(files.take k).Common n id := by
  have hcompared : id ∈ compared ↔ (files.take k).Common n id := ⟨h.common id, hall id⟩
  have hqueue : ∀ i < n, id ∈ (st.queuedMsgs i).map (·.1) ↔
      id ∈ (messages ((files.take k).responses i)).map (·.1) ∧ id ∉ compared := by
    intro i hi
    rw [h.msgs i hi]
    simp only [List.mem_map, List.mem_filter, decide_eq_true_eq]
    constructor
    · rintro ⟨e, ⟨he, hnew⟩, rfl⟩
      exact ⟨⟨e, he, rfl⟩, hnew⟩
    · rintro ⟨⟨e, he, rfl⟩, hnew⟩
      exact ⟨e, ⟨he, hnew⟩, rfl⟩
  rw [← hcompared]
  simp only [unmatchedMsgs, List.mem_dedup, List.mem_flatMap, List.mem_range]
  constructor
  · rintro ⟨i, hi, hid⟩
    rw [hqueue i hi] at hid
    exact ⟨⟨i, hi, hid.1⟩, hid.2⟩
  · rintro ⟨⟨i, hi, hid⟩, hnew⟩
    exact ⟨i, hi, (hqueue i hi).mpr ⟨hid, hnew⟩⟩

/-- From the queues in the end to what is shown of the run. -/
theorem Joined.outcome (h : Joined n files k compared st) (hn : 0 < n)
    (hdistinct : files.Distinct n) (hreadable : files.Readable n)
    (hall : ∀ id, (files.take k).Common n id → id ∈ compared) :
    Compared n (files.take k) st (if st.errors = 0 ∧ unmatchedMsgs n st = [] then 0 else 1) := by
  have hsame : ∀ id ∈ compared, files.agrees n id = true ↔ (files.take k).Same n id := by
    intro id hid
    obtain ⟨oks, hoks, hiff⟩ :=
      result_ok hn (hdistinct.take k) (hreadable.take k) (h.common id hid)
    rw [result_take hdistinct (h.common id hid)] at hoks
    rw [Files.agrees, hoks]
    exact hiff
  have hunmatched := h.mem_unmatchedMsgs hall
  refine ⟨⟨compared, h.nodup, fun id => ⟨h.common id, hall id⟩, h.msgCount,
    compared.filter (!files.agrees n ·), List.filter_sublist, fun id hid => ?_, ?_⟩,
    hunmatched, ?_⟩
  · rw [List.mem_filter, ← hsame id hid]
    simp [hid]
  · rw [h.errors, List.countP_eq_length_filter]
  · have herrors : st.errors = 0 ↔ ∀ id ∈ compared, (files.take k).Same n id := by
      rw [h.errors, List.countP_eq_zero]
      refine forall₂_congr fun id hid => ?_
      rw [← hsame id hid]
      simp
    have hnone : unmatchedMsgs n st = [] ↔
        ∀ id, (files.take k).Answered n id → (files.take k).Common n id := by
      rw [List.eq_nil_iff_forall_not_mem]
      refine forall_congr' fun id => ?_
      rw [hunmatched id, not_and, not_not]
    rw [ite_eq_left_iff, herrors, hnone]
    simp only [Nat.one_ne_zero, imp_false, not_not]
    constructor
    · rintro ⟨hsame, hcommon⟩ id hid
      exact ⟨hcommon id hid, hsame id (hall id (hcommon id hid))⟩
    · intro hid
      refine ⟨fun id hmem => (hid id ?_).2, fun id hanswered => (hid id hanswered).1⟩
      exact ⟨0, hn, (h.common id hmem 0 hn).2⟩

end Run

/-- Two files with the responses in different orders. -/
def reordered : Files where
  queries := fun i => if i = 0 then [.message 1 (.routing .pretripStart .forward),
      .message 2 (.routing .ontripStationStart .forward)]
    else [.message 1 (.routing .pretripStart .forward), .other,
      .message 2 (.routing .ontripStationStart .forward)]
  responses := fun i => if i = 0 then [.message 2 [], .message 1 []]
    else [.message 1 [], .message 2 [], .message 3 []]

theorem readable_reordered : reordered.Readable 2 := by
  have hempty : ∀ i < 2, ∀ e ∈ messages (reordered.responses i), e.2 = [] := by decide
  constructor
  intro i hi e he j hj
  rw [hempty i hi e he] at hj
  cases hj

end Motis.Intermodal.Comparator
