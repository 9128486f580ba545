import Mathlib.Data.Int.Notation
import Motis.Module.Registry

/-! Dispatching a message, and dispatching again what had no target.

    The job of a message runs its operation and gives the callback what it returns. All of it is in
    one `try` block, so that an exception of the callback comes back to the callback:

        op ──▶ message ──▶ callback            op ──▶ message ──▶ callback ⚡
        op ⚡ ──▶ error ──▶ callback                                  └──▶ error ──▶ callback

    A message without a target may be queued. `retry_no_target_msgs` dispatches what is in the queue
    until it is empty; in direct mode the jobs run meanwhile and fill it again. -/

namespace Motis.Module.Dispatching

/-- `std::error_code`; the first one is no error. -/
inductive ErrorCode where
  | success
  | unknownError
  | targetNotFound
  | other (category : String) (value : ℤ)
  deriving DecidableEq, Repr

/-- What can be thrown: a `std::system_error`, another `std::exception`, or anything else. -/
inductive Thrown where
  | systemError (code : ErrorCode)
  | exception (what : String)
  | nonException
  deriving DecidableEq, Repr

structure Msg (Body : Type) where
  id : ℤ
  target : String
  body : Body
  deriving DecidableEq, Repr

/-- A message that an operation has returned, or the description of the registered operations. -/
inductive Response (Body : Type) where
  | message (msg : Msg Body)
  | apiDescription (id : ℤ) (methods : List String)
  deriving DecidableEq, Repr

/-- The arguments of a callback; the message may be a null pointer. -/
structure Args (Body : Type) where
  msg : Option (Response Body)
  ec : ErrorCode
  deriving DecidableEq, Repr

/-- What the callback throws, after earlier invocations. -/
abbrev Callback (Body : Type) := List (Args Body) → Args Body → Option Thrown

/-- An operation returns a message or throws. -/
abbrev Op (Body : Type) := Msg Body → Except Thrown (Option (Msg Body))

structure Dispatcher (Body RemoteOp : Type) where
  registry : Registry (Op Body) RemoteOp
  queueNoTargetMsgs : Bool
  /-- `direct_mode_dispatcher_ != nullptr` -/
  directMode : Bool

/-- What has been done with a message: the invocations of its callback, whether it was handed to a
    remote or queued, and the exception that is left. -/
structure Outcome (Body RemoteOp : Type) where
  calls : List (Args Body) := []
  remote : Option RemoteOp := none
  queued : Bool := false
  thrown : Option Thrown := none

variable {Body RemoteOp : Type} (d : Dispatcher Body RemoteOp)

/-- The first invocation. -/
def call (cb : Callback Body) (args : Args Body) : Outcome Body RemoteOp :=
  { calls := [args], thrown := cb [] args }

def apiDesc (id : ℤ) : Response Body := .apiDescription id d.registry.operations.keys

def handleNoTarget (cb : Callback Body) : Outcome Body RemoteOp :=
  if d.queueNoTargetMsgs then { queued := true } else call cb ⟨none, .targetNotFound⟩

/-- The `try` block of `run`. -/
def tryBlock (msg : Msg Body) (cb : Callback Body) : Outcome Body RemoteOp :=
  match d.registry.getOperation msg.target with
  | some op =>
    match op msg with
    | .ok res => call cb ⟨res.map .message, .success⟩
    | .error e => { thrown := some e }
  | none =>
    match d.registry.getRemoteOp msg.target with
    | some remoteOp => { remote := some remoteOp }
    | none => handleNoTarget d cb

/-- The arguments in the `catch` blocks. -/
def errorArgs : Thrown → Args Body
  | .systemError code => ⟨none, code⟩
  | .exception _ => ⟨none, .unknownError⟩
  | .nonException => ⟨none, .unknownError⟩

/-- `run` of `dispatch`. -/
def run (msg : Msg Body) (cb : Callback Body) : Outcome Body RemoteOp :=
  let o := tryBlock d msg cb
  match o.thrown with
  | none => o
  | some e => { o with
      calls := o.calls ++ [errorArgs e]
      thrown := cb o.calls (errorArgs e) }

/-- A message is done with at once, or its job is handed to the scheduler. -/
inductive Dispatched (Body RemoteOp : Type) where
  | ran (o : Outcome Body RemoteOp)
  | enqueued

def dispatch (msg : Msg Body) (cb : Callback Body) : Dispatched Body RemoteOp :=
  if msg.target = "/api" then .ran (call cb ⟨some (apiDesc d msg.id), .success⟩)
  else if d.directMode then .ran (run d msg cb)
  else .enqueued

/-! ### Exactly one completion -/

/-- The callback is invoked once, or the message is handed over or queued and it is not. -/
def Completed (o : Outcome Body RemoteOp) : Prop :=
  if o.remote.isSome ∨ o.queued then o.calls = [] else o.calls.length = 1

/-- The callback takes the message of the operation, and the error of a missing target, without
    throwing. -/
structure CallbackTakes (msg : Msg Body) (cb : Callback Body) : Prop where
  result : ∀ op res, d.registry.getOperation msg.target = some op → op msg = .ok res →
    cb [] ⟨res.map .message, .success⟩ = none
  noTarget : d.registry.getOperation msg.target = none →
    d.registry.getRemoteOp msg.target = none → d.queueNoTargetMsgs = false →
    cb [] ⟨none, .targetNotFound⟩ = none

section Completion

variable {d} {msg : Msg Body} {cb : Callback Body}

theorem run_of_not_thrown (h : (tryBlock d msg cb).thrown = none) :
    run d msg cb = tryBlock d msg cb := by
  rw [run, h]

theorem run_of_thrown {e : Thrown} (h : (tryBlock d msg cb).thrown = some e) :
    run d msg cb = { tryBlock d msg cb with
      calls := (tryBlock d msg cb).calls ++ [errorArgs e]
      thrown := cb (tryBlock d msg cb).calls (errorArgs e) } := by
  rw [run, h]

/-- A callback that is invoked in the block is invoked once when it does not throw there. -/
theorem completed_call {args : Args Body} (h : tryBlock d msg cb = call cb args) :
    Completed (run d msg cb) ↔ cb [] args = none := by
  cases hthrown : cb [] args with
  | none =>
    have hblock : (tryBlock d msg cb).thrown = none := by rw [h, call, hthrown]
    rw [run_of_not_thrown hblock, h]
    simp [Completed, call]
  | some e =>
    have hblock : (tryBlock d msg cb).thrown = some e := by rw [h, call, hthrown]
    rw [run_of_thrown hblock, h]
    simp [Completed, call]

end Completion

/-- A job completes its request exactly once if and only if the callback does not throw in the
    block. -/
theorem completed_iff_callbackTakes (msg : Msg Body) (cb : Callback Body) :
    Completed (run d msg cb) ↔ CallbackTakes d msg cb := by
  cases hop : d.registry.getOperation msg.target with
  | some op =>
    cases hresult : op msg with
    | ok res =>
      have hblock : tryBlock d msg cb = call cb ⟨res.map .message, .success⟩ := by
        simp [tryBlock, hop, hresult]
      rw [completed_call hblock]
      constructor
      · intro h
        refine ⟨fun op' res' hop' hres' => ?_, fun hnone => by simp [hop] at hnone⟩
        obtain rfl := Option.some.inj (hop.symm.trans hop')
        obtain rfl := Except.ok.inj (hresult.symm.trans hres')
        exact h
      · exact fun h => h.result op res hop hresult
    | error e =>
      -- the callback is invoked in a catch block only
      have hblock : tryBlock d msg cb = { thrown := some e } := by simp [tryBlock, hop, hresult]
      have hrun : Completed (run d msg cb) := by
        rw [run_of_thrown (by rw [hblock]), hblock]
        simp [Completed]
      refine iff_of_true hrun ⟨fun op' res' hop' hres' => ?_, fun hnone => by simp [hop] at hnone⟩
      obtain rfl := Option.some.inj (hop.symm.trans hop')
      rw [hresult] at hres'
      cases hres'
  | none =>
    cases hremote : d.registry.getRemoteOp msg.target with
    | some remoteOp =>
      have hblock : tryBlock d msg cb = { remote := some remoteOp } := by
        simp [tryBlock, hop, hremote]
      have hrun : Completed (run d msg cb) := by
        rw [run_of_not_thrown (by rw [hblock]), hblock]
        simp [Completed]
      exact iff_of_true hrun ⟨fun _ _ hsome => by simp [hop] at hsome,
        fun _ hnone => by simp [hremote] at hnone⟩
    | none =>
      cases hqueue : d.queueNoTargetMsgs with
      | true =>
        have hblock : tryBlock d msg cb = { queued := true } := by
          simp [tryBlock, hop, hremote, handleNoTarget, hqueue]
        have hrun : Completed (run d msg cb) := by
          rw [run_of_not_thrown (by rw [hblock]), hblock]
          simp [Completed]
        exact iff_of_true hrun ⟨fun _ _ hsome => by simp [hop] at hsome,
          fun _ _ hfalse => by simp [hqueue] at hfalse⟩
      | false =>
        have hblock : tryBlock d msg cb = call cb ⟨none, .targetNotFound⟩ := by
          simp [tryBlock, hop, hremote, handleNoTarget, hqueue]
        rw [completed_call hblock]
        exact ⟨fun h => ⟨fun _ _ hsome => by simp [hop] at hsome, fun _ _ _ => h⟩,
          fun h => h.noTarget hop hremote hqueue⟩

/-- The callback throws whatever it is given; nothing is registered. -/
theorem not_completed_throwing : ¬∀ (d : Dispatcher Unit Unit) (msg : Msg Unit)
    (cb : Callback Unit), Completed (run d msg cb) := by
  intro h
  have hcompleted := h ⟨{}, false, false⟩ ⟨1, "/a", ()⟩ fun _ _ => some .nonException
  have hblock : tryBlock ⟨{}, false, false⟩ ⟨1, "/a", ()⟩ (fun _ _ => some .nonException) =
      (call (fun _ _ => some .nonException) ⟨none, .targetNotFound⟩ : Outcome Unit Unit) := rfl
  rw [completed_call hblock] at hcompleted
  cases hcompleted

/-! ### Dispatching again -/

abbrev Entry (Body : Type) := Msg Body × Callback Body

/-- What is handled in a call: every message taken from the queue, with what has been done. -/
structure RetryResult (Body RemoteOp : Type) where
  handled : List (Entry Body × Dispatched Body RemoteOp)
  queue : List (Entry Body)
  thrown : Option Thrown

/-- The message goes into the queue before `dispatch` returns. -/
def Dispatched.requeued : Dispatched Body RemoteOp → Bool
  | .ran o => o.queued
  | .enqueued => false

/-- The exception that comes out of `dispatch`. -/
def Dispatched.thrown : Dispatched Body RemoteOp → Option Thrown
  | .ran o => o.thrown
  | .enqueued => none

def onMsg (e : Entry Body) : Dispatched Body RemoteOp := dispatch d e.1 e.2

/-- The loop, for some rounds at most; `none`: it goes on. -/
def retry : ℕ → List (Entry Body) → List (Entry Body × Dispatched Body RemoteOp) →
    Option (RetryResult Body RemoteOp)
  | 0, _, _ => none
  | _ + 1, [], handled => some ⟨handled, [], none⟩
  | n + 1, e :: queue, handled =>
    match (onMsg d e).thrown with
    | some t => some ⟨handled ++ [(e, onMsg d e)], queue, some t⟩
    | none =>
      retry n (queue ++ if (onMsg d e).requeued then [e] else []) (handled ++ [(e, onMsg d e)])

/-- `retry_no_target_msgs` returns with the result. -/
def RetryReturns (queue : List (Entry Body)) (res : RetryResult Body RemoteOp) : Prop :=
  ∃ n, retry d n queue [] = some res

/-- The target of the message is known. -/
def Known (e : Entry Body) : Prop := e.1.target = "/api" ∨ (lookup d.registry e.1.target).isSome

/-- Each message has been handled once, in the order of the queue. The job of one whose target is
    unknown, run at once or by the scheduler, queues it again or answers it with an error. -/
structure HandledOnce (queue : List (Entry Body)) (res : RetryResult Body RemoteOp) : Prop where
  returned : res.thrown = none
  handled : res.handled = queue.map fun e => (e, onMsg d e)
  drained : res.queue = []
  unknown : ∀ e ∈ queue, ¬Known d e →
    (run d e.1 e.2).queued = true ∨ ⟨none, .targetNotFound⟩ ∈ (run d e.1 e.2).calls
  known : ∀ e ∈ queue, Known d e → (onMsg d e).requeued = false

/-- Not queued again in direct mode, and no exception of its callback comes out. -/
structure Retries (e : Entry Body) : Prop where
  target : d.directMode = true → d.queueNoTargetMsgs = true → Known d e
  callback : (onMsg d e).thrown = none

section Retry

variable {d}

theorem queued_run (msg : Msg Body) (cb : Callback Body) :
    (run d msg cb).queued = (tryBlock d msg cb).queued := by
  rw [run]
  cases (tryBlock d msg cb).thrown <;> rfl

theorem tryBlock_of_unknown {msg : Msg Body} (h : lookup d.registry msg.target = none)
    (cb : Callback Body) : tryBlock d msg cb = handleNoTarget d cb := by
  rw [lookup] at h
  rw [tryBlock]
  cases hop : d.registry.getOperation msg.target with
  | some op => simp [hop] at h
  | none =>
    cases hremote : d.registry.getRemoteOp msg.target with
    | some remoteOp => simp [hop, hremote] at h
    | none => rfl

theorem queued_tryBlock_of_known {msg : Msg Body} (h : lookup d.registry msg.target ≠ none)
    (cb : Callback Body) : (tryBlock d msg cb).queued = false := by
  rw [lookup] at h
  rw [tryBlock]
  cases hop : d.registry.getOperation msg.target with
  | some op =>
    dsimp only
    cases op msg <;> rfl
  | none =>
    cases hremote : d.registry.getRemoteOp msg.target with
    | some remoteOp => rfl
    | none => exact absurd (by simp [hop, hremote]) h

theorem queued_run_iff (msg : Msg Body) (cb : Callback Body) : (run d msg cb).queued = true ↔
    d.queueNoTargetMsgs = true ∧ lookup d.registry msg.target = none := by
  rw [queued_run]
  by_cases hunknown : lookup d.registry msg.target = none
  · rw [tryBlock_of_unknown hunknown, handleNoTarget]
    cases d.queueNoTargetMsgs <;> simp [call, hunknown]
  · simp [queued_tryBlock_of_known hunknown, hunknown]

/-- A message without a target is queued or answered with an error. -/
theorem unknown_queued_or_answered {msg : Msg Body} (h : lookup d.registry msg.target = none)
    (cb : Callback Body) :
    (run d msg cb).queued = true ∨ ⟨none, .targetNotFound⟩ ∈ (run d msg cb).calls := by
  cases hqueue : d.queueNoTargetMsgs with
  | true => exact .inl ((queued_run_iff msg cb).mpr ⟨hqueue, h⟩)
  | false =>
    have hblock : tryBlock d msg cb = call cb ⟨none, .targetNotFound⟩ := by
      rw [tryBlock_of_unknown h, handleNoTarget, hqueue]
      rfl
    right
    cases hthrown : (tryBlock d msg cb).thrown with
    | none =>
      rw [run_of_not_thrown hthrown, hblock]
      exact List.mem_singleton.mpr rfl
    | some e =>
      rw [run_of_thrown hthrown, hblock]
      exact List.mem_append_left _ (List.mem_singleton.mpr rfl)

theorem requeued_onMsg_iff (e : Entry Body) : (onMsg d e).requeued = true ↔
    d.directMode = true ∧ d.queueNoTargetMsgs = true ∧ ¬Known d e := by
  rw [onMsg, dispatch, Known, Option.isSome_iff_ne_none]
  by_cases hapi : e.1.target = "/api"
  · simp [hapi, Dispatched.requeued, call]
  · cases hdirect : d.directMode with
    | true => simp [hapi, Dispatched.requeued, queued_run_iff]
    | false => simp [hapi, Dispatched.requeued]

/-- A loop that ends without an exception has met no message that goes back into the queue: there
    it would be met again. -/
theorem not_requeued_of_retry {n : ℕ} {queue : List (Entry Body)}
    {handled : List (Entry Body × Dispatched Body RemoteOp)} {res : RetryResult Body RemoteOp}
    (h : retry d n queue handled = some res) (hres : res.thrown = none) :
    ∀ e ∈ queue, (onMsg d e).requeued = false ∧ (onMsg d e).thrown = none := by
  induction n generalizing queue handled with
  | zero => cases h
  | succ n ih =>
    cases queue with
    | nil => exact fun e he => absurd he List.not_mem_nil
    | cons e queue =>
      rw [retry] at h
      cases hthrown : (onMsg d e).thrown with
      | some t =>
        simp only [hthrown] at h
        obtain rfl := Option.some.inj h
        cases hres
      | none =>
        simp only [hthrown] at h
        have hrest := ih h
        have hrequeued : (onMsg d e).requeued = false := by
          by_contra hne
          rw [Bool.not_eq_false] at hne
          have hagain := hrest e (by simp [hne])
          rw [hne] at hagain
          cases hagain.1
        rintro e' he'
        rcases List.mem_cons.mp he' with rfl | he'
        · exact ⟨hrequeued, hthrown⟩
        · exact hrest e' (List.mem_append_left _ he')

theorem retry_eq {queue : List (Entry Body)}
    (h : ∀ e ∈ queue, (onMsg d e).requeued = false ∧ (onMsg d e).thrown = none)
    (handled : List (Entry Body × Dispatched Body RemoteOp)) :
    retry d (queue.length + 1) queue handled =
      some ⟨handled ++ queue.map fun e => (e, onMsg d e), [], none⟩ := by
  induction queue generalizing handled with
  | nil => simp [retry]
  | cons e queue ih =>
    obtain ⟨hrequeued, hthrown⟩ := h e (List.mem_cons_self ..)
    have hrest := ih (fun e' he' => h e' (List.mem_cons_of_mem _ he'))
      (handled ++ [(e, onMsg d e)])
    rw [List.length_cons, retry, hthrown, hrequeued]
    simpa using hrest

end Retry

/-- The call returns and has handled each message of the queue once, if and only if in direct mode
    none of them is queued again and no exception of a callback comes out. -/
theorem retry_returns_iff (queue : List (Entry Body)) :
    (∃ res, RetryReturns d queue res ∧ HandledOnce d queue res) ↔ ∀ e ∈ queue, Retries d e := by
  constructor
  · rintro ⟨res, ⟨n, hretry⟩, honce⟩ e he
    obtain ⟨hrequeued, hthrown⟩ := not_requeued_of_retry hretry honce.returned e he
    refine ⟨fun hdirect hqueue => ?_, hthrown⟩
    by_contra hunknown
    have hagain := (requeued_onMsg_iff e).mpr ⟨hdirect, hqueue, hunknown⟩
    rw [hrequeued] at hagain
    cases hagain
  · intro h
    have hstay : ∀ e ∈ queue, (onMsg d e).requeued = false ∧ (onMsg d e).thrown = none := by
      intro e he
      refine ⟨Bool.eq_false_iff.mpr fun hrequeued => ?_, (h e he).callback⟩
      obtain ⟨hdirect, hqueue, hunknown⟩ := (requeued_onMsg_iff e).mp hrequeued
      exact hunknown ((h e he).target hdirect hqueue)
    refine ⟨_, ⟨queue.length + 1, retry_eq hstay []⟩, rfl, by simp, rfl, ?_, ?_⟩
    · intro e he hunknown
      have hlookup : lookup d.registry e.1.target = none := by
        rw [Known, not_or, Bool.not_eq_true, Option.isSome_eq_false_iff,
          Option.isNone_iff_eq_none] at hunknown
        exact hunknown.2
      exact unknown_queued_or_answered hlookup e.2
    · exact fun e he _ => (hstay e he).1

/-- One queued message, nothing is registered, in direct mode. -/
theorem retry_goes_on : ¬∀ (d : Dispatcher Unit Unit) (queue : List (Entry Unit)),
    ∃ res, RetryReturns d queue res ∧ HandledOnce d queue res := by
  intro h
  obtain ⟨res, ⟨n, hretry⟩, honce⟩ := h ⟨{}, true, true⟩ [(⟨1, "/a", ()⟩, fun _ _ => none)]
  have hstay := not_requeued_of_retry hretry honce.returned _ (List.mem_singleton.mpr rfl)
  cases hstay.1

end Motis.Module.Dispatching
