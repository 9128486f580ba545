import Motis.Lib.Runs
import Motis.Module.Remote

/-! Completion of remote requests.

    As long as no request times out and no response comes twice, a request is held in `pending` and
    in `timeouts` exactly as long as its wait has not been handled, and its callback has been called
    at most once. A timeout calls the callback and holds the request for good; a second response
    that comes before the cancelled wait is handled calls it again. -/

namespace Motis.Module
open Runs

variable {Op RemoteOp : Type}

/-- A remote in its surroundings, with what has happened so far. -/
structure Session (Op RemoteOp : Type) where
  reg : Registry Op RemoteOp := {}
  remote : Remote := {}
  outputs : List Output := []
  /-- Requests whose response or timeout was processed before the remote was stopped. -/
  answered : List ReqId := []

inductive SessionEvent (Op RemoteOp : Type) where
  | remote (e : RemoteEvent)
  /-- The registry is shared: others register and unregister, too. -/
  | registry (reg : Registry Op RemoteOp)

/-- The request the event answers. -/
def answers (r : Remote) : RemoteEvent → Option ReqId
  | .onMsg ⟨id, .other⟩ => if !r.stopped && r.timers id != .unset then some id else none
  | .timerHandler id => if !r.stopped && r.timers id == .queued false then some id else none
  | _ => none

/-- The session after a reaction of the remote. -/
def Session.after (s : Session Op RemoteOp) (answer : Option ReqId)
    (reaction : Registry Op RemoteOp × Remote × List Output) : Session Op RemoteOp where
  reg := reaction.1
  remote := reaction.2.1
  outputs := s.outputs ++ reaction.2.2
  answered := s.answered ++ answer.toList

/-- The sessions of the remote `me`. -/
def session (me : RemoteOp) : System (Session Op RemoteOp) (SessionEvent Op RemoteOp) where
  enabled := fun s => fun
    | .remote e => s.remote.Enabled e
    | .registry _ => True
  step := fun s => fun
    | .remote e => s.after (answers s.remote e) (s.remote.handle me s.reg e)
    | .registry reg => { s with reg := reg }

def isCallback (id : ReqId) : Output → Bool
  | .callback id' _ => id' == id
  | _ => false

/-- How often the callback of the request has been invoked. -/
def Session.invocations (s : Session Op RemoteOp) (id : ReqId) : ℕ :=
  s.outputs.countP (isCallback id)

/-- Callbacks are invoked at most once, exactly once when answered, and then released. -/
structure Completed (s : Session Op RemoteOp) : Prop where
  atMostOnce : ∀ id, s.invocations id ≤ 1
  answered : ∀ id ∈ s.answered, s.invocations id = 1
  released : ∀ id, 0 < s.invocations id → s.remote.timers id = .done →
    id ∉ s.remote.pending ∧ id ∉ s.remote.timeouts

/-- The event is neither the timeout of a request nor a response to a completed one. -/
def Clean (s : Session Op RemoteOp) : SessionEvent Op RemoteOp → Prop
  | .remote (.timerHandler id) => s.remote.timers id ≠ .queued false
  | .remote (.onMsg ⟨id, .other⟩) =>
    s.remote.stopped = true ∨ id ∉ s.remote.pending ∨ s.invocations id = 0
  | _ => True

/-! ### The invariant -/

/-- The wait has not been handled yet. -/
def TimerState.Active : TimerState → Prop
  | .waiting | .queued _ => True
  | .unset | .done => False

/-- How often the callback has been invoked at each stage of the wait. -/
def Invoked (stopped : Bool) : TimerState → ℕ → Prop
  | .unset, n => n = 0
  | .waiting, n => n = 0 ∧ stopped = false
  | .queued false, n => n ≤ 1
  | .queued true, n | .done, n => n = 1 ∨ n = 0 ∧ stopped = true

/-- The request is held as long as its wait is active, and called as its stage says. -/
structure SoundAt (s : Session Op RemoteOp) (id : ReqId) : Prop where
  pending : id ∈ s.remote.pending ↔ (s.remote.timers id).Active
  timeouts : id ∈ s.remote.timeouts ↔ (s.remote.timers id).Active
  invoked : Invoked s.remote.stopped (s.remote.timers id) (s.invocations id)
  answered : id ∈ s.answered → s.invocations id = 1

structure Sound (s : Session Op RemoteOp) : Prop where
  fresh : ∀ id, s.remote.nextReqId < id → s.remote.timers id = .unset
  soundAt : ∀ id, SoundAt s id

theorem Invoked.le_one {stopped : Bool} {t : TimerState} {n : ℕ} (h : Invoked stopped t n) :
    n ≤ 1 := by
  rcases t with _ | _ | (_ | _) | _
  all_goals
    simp only [Invoked] at h
    omega

theorem Sound.completed {s : Session Op RemoteOp} (h : Sound s) : Completed s := by
  refine ⟨fun id => (h.soundAt id).invoked.le_one, fun id => (h.soundAt id).answered,
    fun id _ hdone => ?_⟩
  rw [(h.soundAt id).pending, (h.soundAt id).timeouts, hdone]
  exact ⟨False.elim, False.elim⟩

theorem sound_init (reg : Registry Op RemoteOp) : Sound { reg := reg : Session Op RemoteOp } where
  fresh := fun _ _ => rfl
  soundAt := fun _ => ⟨by simp [TimerState.Active], by simp [TimerState.Active], rfl, by simp⟩

/-! ### The steps -/

section Steps
variable {s s' : Session Op RemoteOp} {id : ReqId}

/-- What a step leaves alone stays sound. -/
theorem SoundAt.frame (h : SoundAt s id)
    (hstopped : s'.remote.stopped = s.remote.stopped)
    (htimers : s'.remote.timers id = s.remote.timers id)
    (hpending : id ∈ s'.remote.pending ↔ id ∈ s.remote.pending)
    (htimeouts : id ∈ s'.remote.timeouts ↔ id ∈ s.remote.timeouts)
    (hinvoked : s'.invocations id = s.invocations id)
    (hanswered : id ∈ s'.answered → id ∈ s.answered) : SoundAt s' id := by
  refine ⟨?_, ?_, ?_, ?_⟩
  · rw [hpending, htimers]; exact h.pending
  · rw [htimeouts, htimers]; exact h.timeouts
  · rw [hstopped, htimers, hinvoked]; exact h.invoked
  · rw [hinvoked]; exact fun hid => h.answered (hanswered hid)

theorem invocations_after (answer : Option ReqId)
    (reaction : Registry Op RemoteOp × Remote × List Output) :
    (s.after answer reaction).invocations id =
      s.invocations id + reaction.2.2.countP (isCallback id) :=
  List.countP_append

theorem mem_answered_after (answer : Option ReqId)
    (reaction : Registry Op RemoteOp × Remote × List Output) :
    id ∈ (s.after answer reaction).answered ↔ id ∈ s.answered ∨ answer = some id := by
  simp [Session.after]

/-- A reaction that touches no request. -/
theorem Sound.untouched (h : Sound s)
    {reaction : Registry Op RemoteOp × Remote × List Output}
    (hstopped : reaction.2.1.stopped = s.remote.stopped)
    (htimers : reaction.2.1.timers = s.remote.timers)
    (hpending : reaction.2.1.pending = s.remote.pending)
    (htimeouts : reaction.2.1.timeouts = s.remote.timeouts)
    (hnext : s.remote.nextReqId ≤ reaction.2.1.nextReqId)
    (houtputs : ∀ id, reaction.2.2.countP (isCallback id) = 0) :
    Sound (s.after none reaction) := by
  refine ⟨fun id hid => ?_, fun id => ?_⟩
  · exact (congrFun htimers id).trans (h.fresh id (lt_of_le_of_lt hnext hid))
  · refine (h.soundAt id).frame hstopped (congrFun htimers id) (by rw [← hpending]; rfl)
      (by rw [← htimeouts]; rfl) ?_ ?_
    · rw [invocations_after, houtputs, Nat.add_zero]
    · rw [mem_answered_after]
      rintro (hid | hid)
      · exact hid
      · cases hid

/-- A reaction that touches the request `id` only. -/
theorem Sound.touched (h : Sound s) {answer : Option ReqId}
    {reaction : Registry Op RemoteOp × Remote × List Output} (id : ReqId)
    (hid : SoundAt (s.after answer reaction) id)
    (hstopped : reaction.2.1.stopped = s.remote.stopped)
    (hnext : s.remote.nextReqId ≤ reaction.2.1.nextReqId) (hle : id ≤ reaction.2.1.nextReqId)
    (hothers : ∀ id', id' ≠ id → reaction.2.1.timers id' = s.remote.timers id' ∧
      (id' ∈ reaction.2.1.pending ↔ id' ∈ s.remote.pending) ∧
      (id' ∈ reaction.2.1.timeouts ↔ id' ∈ s.remote.timeouts) ∧
      reaction.2.2.countP (isCallback id') = 0 ∧ answer ≠ some id') :
    Sound (s.after answer reaction) := by
  refine ⟨fun id' hid' => ?_, fun id' => ?_⟩
  · have hne : id' ≠ id := (lt_of_le_of_lt hle hid').ne'
    exact (hothers id' hne).1.trans (h.fresh id' (lt_of_le_of_lt hnext hid'))
  · rcases eq_or_ne id' id with rfl | hne
    · exact hid
    · obtain ⟨htimers, hpending, htimeouts, houtputs, hanswer⟩ := hothers id' hne
      refine (h.soundAt id').frame hstopped htimers hpending htimeouts ?_ ?_
      · rw [invocations_after, houtputs, Nat.add_zero]
      · rw [mem_answered_after]
        exact fun hid => hid.resolve_right hanswer

/-- `stop` cancels every active wait. -/
theorem Sound.stop (h : Sound s) : Sound (s.after none (s.reg, s.remote.stop, [])) := by
  have htimers : ∀ id, s.remote.stop.timers id = (s.remote.timers id).cancel := by
    intro id
    by_cases hid : id ∈ s.remote.timeouts
    · exact if_pos hid
    · have hinactive := mt (h.soundAt id).timeouts.mpr hid
      refine (if_neg hid).trans ?_
      cases ht : s.remote.timers id with
      | waiting => exact absurd trivial (by rwa [ht] at hinactive)
      | unset | queued _ | done => rfl
  have hactive : ∀ id, (s.remote.stop.timers id).Active ↔ (s.remote.timers id).Active := by
    intro id
    rw [htimers]
    cases s.remote.timers id <;> rfl
  refine ⟨fun id hid => ?_, fun id => ⟨?_, ?_, ?_, ?_⟩⟩
  · exact (htimers id).trans (by rw [h.fresh id hid]; rfl)
  · exact (h.soundAt id).pending.trans (hactive id).symm
  · exact (h.soundAt id).timeouts.trans (hactive id).symm
  · have hinv := (h.soundAt id).invoked
    change Invoked true (s.remote.stop.timers id) _
    rw [htimers, invocations_after, List.countP_nil, Nat.add_zero]
    rcases ht : s.remote.timers id with _ | _ | (_ | _) | _
    all_goals
      rw [ht] at hinv
      simp only [Invoked, TimerState.cancel] at hinv ⊢
      grind
  · rw [mem_answered_after, invocations_after, List.countP_nil, Nat.add_zero]
    rintro (hid | hid)
    · exact (h.soundAt id).answered hid
    · cases hid

theorem countP_isCallback_self (id : ReqId) (result : CallbackResult) :
    [Output.callback id result].countP (isCallback id) = 1 := by
  simp [isCallback]

theorem countP_isCallback_ne {id id' : ReqId} (hne : id' ≠ id) (result : CallbackResult) :
    [Output.callback id result].countP (isCallback id') = 0 := by
  simp [isCallback, hne.symm]

/-- A sent request is held, with its wait before it. -/
theorem Sound.send (h : Sound s) (hstopped : s.remote.stopped = false) (target : String) :
    Sound (s.after none (s.reg, s.remote.send target)) := by
  have hsend : s.remote.send target = _ := if_neg (by simp [hstopped])
  rw [hsend]
  have hfresh := h.fresh (s.remote.nextReqId + 1) (Int.lt_succ _)
  have hat := h.soundAt (s.remote.nextReqId + 1)
  have hinv := hat.invoked
  rw [hfresh] at hinv
  refine h.touched (s.remote.nextReqId + 1) ⟨?_, ?_, ?_, ?_⟩ rfl (Int.le_of_lt (Int.lt_succ _))
    le_rfl ?_
  · simp [Session.after, TimerState.Active]
  · simp [Session.after, TimerState.Active]
  · rw [invocations_after]
    simp only [Session.after, Function.update_self]
    exact ⟨hinv, hstopped⟩
  · rw [mem_answered_after]
    rintro (hid | hid)
    · have := hat.answered hid
      rw [Invoked] at hinv
      omega
    · cases hid
  · intro id' hne
    refine ⟨Function.update_of_ne hne _ _, ?_, ?_, rfl, by simp⟩
    · exact Finset.mem_insert.trans (or_iff_right hne)
    · exact Finset.mem_insert.trans (or_iff_right hne)

theorem Sound.le_next (h : Sound s) (hset : s.remote.timers id ≠ .unset) :
    id ≤ s.remote.nextReqId :=
  not_lt.mp fun hlt => hset (h.fresh id hlt)

theorem Sound.timerExpires (h : Sound s) (hwaiting : s.remote.timers id = .waiting) :
    Sound (s.after none (s.reg, s.remote.timerExpires id, [])) := by
  have hat := h.soundAt id
  have hinv := hat.invoked
  rw [hwaiting] at hinv
  refine h.touched id ⟨?_, ?_, ?_, ?_⟩ rfl le_rfl (h.le_next (by rw [hwaiting]; nofun)) ?_
  · simpa [Session.after, Remote.timerExpires, TimerState.Active, hwaiting] using hat.pending
  · simpa [Session.after, Remote.timerExpires, TimerState.Active, hwaiting] using hat.timeouts
  · rw [invocations_after, List.countP_nil, Nat.add_zero]
    simp only [Session.after, Remote.timerExpires, Function.update_self]
    exact hinv.1.le.trans (Nat.zero_le 1)
  · rw [mem_answered_after, invocations_after, List.countP_nil, Nat.add_zero]
    exact fun hid => hat.answered (hid.resolve_right nofun)
  · exact fun id' hne => ⟨Function.update_of_ne hne _ _, Iff.rfl, Iff.rfl, rfl, nofun⟩

/-- The handler of an aborted wait releases the request. -/
theorem Sound.timerHandler (h : Sound s) (haborted : s.remote.timers id = .queued true) :
    Sound (s.after none (s.reg, s.remote.timerHandler id true)) := by
  have hat := h.soundAt id
  have hinv := hat.invoked
  rw [haborted] at hinv
  have hpending : id ∈ s.remote.pending := hat.pending.mpr (by rw [haborted]; trivial)
  have hhandler : s.remote.timerHandler id true = _ := if_pos hpending
  rw [hhandler]
  refine h.touched id ⟨?_, ?_, ?_, ?_⟩ rfl le_rfl (h.le_next (by rw [haborted]; nofun)) ?_
  · simp [Session.after, TimerState.Active]
  · simp [Session.after, TimerState.Active]
  · rw [invocations_after]
    have hdone : Invoked s.remote.stopped .done (s.invocations id) := hinv
    simpa [Session.after] using hdone
  · rw [mem_answered_after, invocations_after]
    exact fun hid => hat.answered (hid.resolve_right nofun)
  · intro id' hne
    refine ⟨Function.update_of_ne hne _ _, ?_, ?_, rfl, nofun⟩
    · exact Finset.mem_erase.trans (and_iff_right hne)
    · exact Finset.mem_erase.trans (and_iff_right hne)

/-- The first response completes a request. -/
theorem Sound.complete (h : Sound s) (hpending : id ∈ s.remote.pending)
    (hfirst : s.invocations id = 0) (result : CallbackResult) :
    Sound (s.after (some id) (s.reg, s.remote.complete id result)) := by
  have hat := h.soundAt id
  have hactive := hat.pending.mp hpending
  have hset : s.remote.timers id ≠ .unset := by
    intro hunset
    rw [hunset] at hactive
    exact hactive
  have hcancel : (s.remote.timers id).cancel.Active := by
    cases ht : s.remote.timers id with
    | waiting | queued _ => trivial
    | unset | done => rwa [ht] at hactive
  refine h.touched id ⟨?_, ?_, ?_, ?_⟩ rfl le_rfl (h.le_next hset) ?_
  · simpa [Session.after, Remote.complete, hcancel] using hpending
  · simpa [Session.after, Remote.complete, hcancel] using hat.timeouts.mpr hactive
  · rw [invocations_after, hfirst, Remote.complete, countP_isCallback_self, Nat.zero_add]
    simp only [Session.after, Function.update_self]
    rcases ht : s.remote.timers id with _ | _ | (_ | _) | _
    · exact absurd ht hset
    · exact .inl rfl
    · exact le_rfl
    · exact .inl rfl
    · exact .inl rfl
  · intro _
    rw [invocations_after, hfirst, Remote.complete, countP_isCallback_self]
  · intro id' hne
    refine ⟨Function.update_of_ne hne _ _, Iff.rfl, Iff.rfl, countP_isCallback_ne hne _, ?_⟩
    exact fun heq => hne (Option.some_inj.mp heq).symm

/-- A response to a request that is not held says nothing new. -/
theorem Sound.unknown (h : Sound s) (hstopped : s.remote.stopped = false)
    (hpending : id ∉ s.remote.pending) :
    Sound (s.after (if s.remote.timers id != .unset then some id else none)
      (s.reg, s.remote, [])) := by
  refine ⟨h.fresh, fun id' => ?_⟩
  refine ⟨(h.soundAt id').pending, (h.soundAt id').timeouts, ?_, ?_⟩
  · rw [invocations_after, List.countP_nil, Nat.add_zero]
    exact (h.soundAt id').invoked
  · rw [mem_answered_after, invocations_after, List.countP_nil, Nat.add_zero]
    rintro (hid | hid)
    · exact (h.soundAt id').answered hid
    · obtain ⟨hset, rfl⟩ : s.remote.timers id ≠ .unset ∧ id = id' := by simpa using hid
      have hinactive := mt (h.soundAt id).pending.mpr hpending
      have hinv := (h.soundAt id).invoked
      cases ht : s.remote.timers id with
      | unset => exact absurd ht hset
      | waiting | queued _ => exact absurd trivial (by rwa [ht] at hinactive)
      | done =>
        rw [ht, hstopped] at hinv
        exact hinv.resolve_right fun hstop => Bool.noConfusion hstop.2

theorem Sound.onMsg (h : Sound s) (me : RemoteOp) (msg : RemoteMsg)
    (hclean : Clean s (.remote (.onMsg msg) : SessionEvent Op RemoteOp)) :
    Sound (s.after (answers s.remote (.onMsg msg)) (s.remote.onMsg me s.reg msg)) := by
  obtain ⟨id, content⟩ := msg
  cases hstopped : s.remote.stopped with
  | true =>
    have hanswers : answers s.remote (.onMsg ⟨id, content⟩) = none := by
      cases content <;> simp [answers, hstopped]
    rw [hanswers, Remote.onMsg, if_pos hstopped]
    exact h.untouched rfl rfl rfl rfl le_rfl fun _ => rfl
  | false =>
    rw [Remote.onMsg, if_neg (by simp [hstopped])]
    cases content with
    | apiDescription methods => exact h.untouched rfl rfl rfl rfl le_rfl fun _ => rfl
    | other =>
      simp only [Clean, hstopped, Bool.false_eq_true, false_or] at hclean
      simp only [answers, hstopped, Bool.not_false, Bool.true_and]
      by_cases hpending : id ∈ s.remote.pending
      · have hset : (s.remote.timers id != .unset) = true := by
          have hactive := (h.soundAt id).pending.mp hpending
          cases ht : s.remote.timers id with
          | unset => exact absurd (by rwa [ht] at hactive) not_false
          | waiting | queued _ | done => rfl
        rw [if_pos hpending, if_pos hset]
        exact h.complete hpending (hclean.resolve_left (not_not_intro hpending)) _
      · rw [if_neg hpending]
        exact h.unknown hstopped hpending

/-- Every clean step keeps the invariant. -/
theorem Sound.step (me : RemoteOp) (h : Sound s) {e : SessionEvent Op RemoteOp}
    (henabled : (session me).enabled s e) (hclean : Clean s e) :
    Sound ((session me).step s e) := by
  cases e with
  | registry reg =>
    exact ⟨h.fresh, fun id' => (h.soundAt id').frame rfl rfl Iff.rfl Iff.rfl rfl fun hid => hid⟩
  | remote e =>
    change Sound (s.after (answers s.remote e) (s.remote.handle me s.reg e))
    cases e with
    | start =>
      rw [Remote.handle, Remote.start]
      split_ifs
      · exact h.untouched rfl rfl rfl rfl le_rfl fun _ => rfl
      · exact h.untouched rfl rfl rfl rfl le_rfl fun _ => rfl
    | stop => exact h.stop
    | onConnect failed =>
      rw [Remote.handle, Remote.onConnect]
      split_ifs
      · exact h.untouched rfl rfl rfl rfl le_rfl fun _ => rfl
      · exact h.untouched rfl rfl rfl rfl (Int.le_of_lt (Int.lt_succ _)) fun _ => rfl
    | onFail =>
      rw [Remote.handle, Remote.onFail]
      split_ifs
      · exact h.untouched rfl rfl rfl rfl le_rfl fun _ => rfl
      · exact h.untouched rfl rfl rfl rfl le_rfl fun _ => rfl
    | onMsg msg => exact h.onMsg me msg hclean
    | send target =>
      cases hstopped : s.remote.stopped with
      | true =>
        rw [Remote.handle, Remote.send, if_pos hstopped]
        exact h.untouched rfl rfl rfl rfl le_rfl fun _ => rfl
      | false => exact h.send hstopped target
    | timerExpires id => exact h.timerExpires henabled
    | timerHandler id =>
      obtain ⟨aborted, hqueued⟩ := henabled
      cases aborted with
      | false => exact absurd hqueued hclean
      | true =>
        have hanswers : answers s.remote (.timerHandler id) = none := by simp [answers, hqueued]
        rw [hanswers, Remote.handle, hqueued]
        exact h.timerHandler hqueued
    | restartHandler aborted =>
      rw [Remote.handle, Remote.start]
      split_ifs
      · exact h.untouched rfl rfl rfl rfl le_rfl fun _ => rfl
      · exact h.untouched rfl rfl rfl rfl le_rfl fun _ => rfl
      · exact h.untouched rfl rfl rfl rfl le_rfl fun _ => rfl

/-! ### The steps that break it -/

/-- A timeout calls the callback and keeps the request. -/
theorem timeout_not_completed (h : Sound s) (me : RemoteOp)
    (hexpired : s.remote.timers id = .queued false) :
    ¬ Completed ((session me).step s (.remote (.timerHandler id))) := by
  have hpending : id ∈ s.remote.pending :=
    (h.soundAt id).pending.mpr (by rw [hexpired]; trivial)
  change ¬ Completed (s.after _ (s.reg, s.remote.timerHandler id (s.remote.timers id == _)))
  rw [hexpired]
  have hhandler : s.remote.timerHandler id false = _ := if_pos hpending
  intro hcompleted
  refine (hcompleted.released id ?_ ?_).1 ?_
  · rw [invocations_after]
    change 0 < _ + (s.remote.timerHandler id false).2.countP _
    rw [hhandler]
    change 0 < _ + [Output.callback id _].countP _
    rw [countP_isCallback_self]
    exact Nat.succ_pos _
  · change (s.remote.timerHandler id false).1.timers id = _
    rw [hhandler]
    simp [Remote.complete, TimerState.cancel]
  · change id ∈ (s.remote.timerHandler id false).1.pending
    rw [hhandler]
    exact hpending

/-- A response to a completed request that is still held calls the callback again. -/
theorem response_not_completed (me : RemoteOp) (hstopped : s.remote.stopped = false)
    (hpending : id ∈ s.remote.pending) (hcalled : s.invocations id ≠ 0) :
    ¬ Completed ((session me).step s (.remote (.onMsg ⟨id, .other⟩))) := by
  intro hcompleted
  have hone := hcompleted.atMostOnce id
  have hmsg : s.remote.onMsg me s.reg ⟨id, .other⟩ =
      (s.reg, s.remote.complete id (.response ⟨id, .other⟩)) := by
    rw [Remote.onMsg, if_neg (by simp [hstopped])]
    exact if_pos hpending
  have hstep : (session me).step s (.remote (.onMsg ⟨id, .other⟩)) =
      s.after (answers s.remote (.onMsg ⟨id, .other⟩)) (s.remote.onMsg me s.reg ⟨id, .other⟩) := rfl
  rw [hstep, hmsg, invocations_after, Remote.complete, countP_isCallback_self] at hone
  omega

theorem clean_of_completed (me : RemoteOp) (h : Sound s) {e : SessionEvent Op RemoteOp}
    (hcompleted : Completed ((session me).step s e)) : Clean s e := by
  by_contra hclean
  rcases e with (_ | _ | _ | _ | ⟨id, _ | _⟩ | _ | _ | id | _) | _
  all_goals try exact hclean trivial
  · simp only [Clean, not_or, Bool.not_eq_true, not_not] at hclean
    exact response_not_completed me hclean.1 hclean.2.1 hclean.2.2 hcompleted
  · exact timeout_not_completed h me (not_not.mp hclean) hcompleted

end Steps

/-! ### Runs -/

/-- CORRECT: in a run of a remote every request is completed at most once, once when it was
    answered, and released then, if and only if no request times out and none is answered by
    a second response before its wait is handled. -/
theorem completed_iff_clean (me : RemoteOp) (reg : Registry Op RemoteOp)
    (es : List (SessionEvent Op RemoteOp)) (hrun : Feasible (session me) { reg := reg } es) :
    Always (session me) Completed { reg := reg } es ↔ Each (session me) Clean { reg := reg } es :=
  always_iff_each (fun _ _ h => h.step me) (fun _ h => h.completed)
    (fun _ _ h _ => clean_of_completed me h) (sound_init reg) hrun

/-- Connect, register, send a request. -/
def requestSent : List (SessionEvent ℕ ℕ) :=
  [.remote .start, .remote (.onConnect false), .remote (.onMsg ⟨1, .apiDescription ["/a"]⟩),
    .remote (.send "/a")]

theorem completed_iff_clean_answered :
    Always (session 0) Completed ({} : Session ℕ ℕ)
        (requestSent ++ [.remote (.onMsg ⟨2, .other⟩), .remote (.timerHandler 2)]) ↔
      Each (session 0) Clean ({} : Session ℕ ℕ)
        (requestSent ++ [.remote (.onMsg ⟨2, .other⟩), .remote (.timerHandler 2)]) :=
  completed_iff_clean 0 {} _
    ⟨trivial, rfl, rfl, .inr rfl, rfl, ⟨true, rfl⟩, trivial⟩

/-- The request times out; then its response arrives. -/
theorem late_response_calls_twice :
    Feasible (session 0) ({} : Session ℕ ℕ) (requestSent ++
      [.remote (.timerExpires 2), .remote (.timerHandler 2), .remote (.onMsg ⟨2, .other⟩)]) ∧
    ¬ Always (session 0) Completed ({} : Session ℕ ℕ) (requestSent ++
      [.remote (.timerExpires 2), .remote (.timerHandler 2), .remote (.onMsg ⟨2, .other⟩)]) := by
  refine ⟨⟨trivial, rfl, rfl, .inr rfl, rfl, ⟨false, rfl⟩, rfl, trivial⟩, fun h => ?_⟩
  have htwice := h.last.atMostOnce 2
  revert htwice
  decide

end Motis.Module
