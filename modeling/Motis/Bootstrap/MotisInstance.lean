import Mathlib.Data.Finset.Card
import Motis.Lib.Runs
import Motis.Module.Remote

/-! The remotes of an instance and the counter of the registered ones.

    Every remote calls `on_register` when its server has registered and `on_unregister` when its
    connection has failed; the instance counts up and down. The remote calls `on_register` twice
    for one registration, and `on_unregister` for every failure, registered or not:

        connected_remotes = 2 · registrations − failures      (mod 2 ^ 32) -/

namespace Motis.Bootstrap
open Motis.Module Runs

/-- `motis_instance` with its remotes; a remote is named by its place among them. -/
structure MotisInstance (Op : Type) where
  reg : Registry Op ℕ := {}
  remotes : List Remote := []
  connectedRemotes : UInt32 := 0
  /-- Whether `on_remotes_registered` still has a function. -/
  onRemotesRegistered : Bool := false
  /-- How often queued messages have been retried. -/
  retries : ℕ := 0
  /-- The remotes whose last registration no failure has followed. -/
  registered : Finset ℕ := ∅
  registrations : ℕ := 0
  failures : ℕ := 0

variable {Op : Type}

namespace MotisInstance

/-- `init_remotes`: all remotes are created and started. -/
def initRemotes (reg : Registry Op ℕ) (onRemotesRegistered : Bool) (n : ℕ) : MotisInstance Op where
  reg := reg
  remotes := List.replicate n ({} : Remote).start
  onRemotesRegistered := onRemotesRegistered

/-- The `on_register` of a remote. -/
def onRegister (m : MotisInstance Op) : MotisInstance Op :=
  let m := { m with connectedRemotes := m.connectedRemotes + 1 }
  if m.connectedRemotes.toNat = m.remotes.length then
    { m with retries := m.retries + 1, onRemotesRegistered := false }
  else m

/-- The `on_unregister` of a remote. -/
def onUnregister (m : MotisInstance Op) : MotisInstance Op :=
  { m with connectedRemotes := m.connectedRemotes - 1 }

def react (m : MotisInstance Op) : Output → MotisInstance Op
  | .onRegister => m.onRegister
  | .onUnregister => m.onUnregister
  | _ => m

end MotisInstance

/-- The event is a registration the remote processes. -/
def registers (r : Remote) : RemoteEvent → Bool
  | .onMsg ⟨_, .apiDescription _⟩ => !r.stopped
  | _ => false

/-- The event is a failure of the connection the remote processes. -/
def fails (r : Remote) : RemoteEvent → Bool
  | .onFail => !r.stopped
  | _ => false

/-- An event of the remote `i`. -/
structure InstanceEvent where
  i : ℕ
  event : RemoteEvent

namespace MotisInstance

/-- The instance after remote `i` has become `r`, before it has been called back. -/
def record (m : MotisInstance Op) (reg : Registry Op ℕ) (i : ℕ) (r : Remote)
    (registers fails : Bool) : MotisInstance Op :=
  { m with
    reg := reg
    remotes := m.remotes.set i r
    registered := if registers then insert i m.registered
      else if fails then m.registered.erase i else m.registered
    registrations := m.registrations + registers.toNat
    failures := m.failures + fails.toNat }

def step (m : MotisInstance Op) (e : InstanceEvent) : MotisInstance Op :=
  match m.remotes[e.i]? with
  | none => m
  | some r =>
    let (reg, r', outputs) := r.handle e.i m.reg e.event
    outputs.foldl react (m.record reg e.i r' (registers r e.event) (fails r e.event))

end MotisInstance

/-- The instance and the events of its remotes. -/
def remotes : System (MotisInstance Op) InstanceEvent where
  enabled := fun m e => ∃ r, m.remotes[e.i]? = some r ∧ r.Enabled e.event
  step := MotisInstance.step

/-- The counter is the number of registered remotes. -/
def Counted (m : MotisInstance Op) : Prop := m.connectedRemotes.toNat = m.registered.card

/-- All remotes are registered. -/
def Complete (m : MotisInstance Op) : Prop := ∀ i < m.remotes.length, i ∈ m.registered

/-- Queued messages are retried in a step if and only if it registers the last missing remote. -/
def RetriesWhenComplete (m : MotisInstance Op) (e : InstanceEvent) : Prop :=
  m.retries < (m.step e).retries ↔ ¬ Complete m ∧ Complete (m.step e)

/-- The event is neither a registration nor a failure. -/
def Quiet (m : MotisInstance Op) (e : InstanceEvent) : Prop :=
  ∀ r, m.remotes[e.i]? = some r → registers r e.event = false ∧ fails r e.event = false

/-! ### The counter -/

/-- What a remote reports of an event: a registration twice, a failure once. -/
theorem handle_reports (r : Remote) (i : ℕ) (reg : Registry Op ℕ) (e : RemoteEvent)
    (m : MotisInstance Op) :
    (r.handle i reg e).2.2.foldl MotisInstance.react m =
      if registers r e then m.onRegister.onRegister
      else if fails r e then m.onUnregister else m := by
  cases e with
  | start | stop | timerExpires _ | restartHandler _ => rfl
  | onConnect failed => cases failed <;> rfl
  | onFail =>
    rw [Remote.handle, Remote.onFail]
    cases hstopped : r.stopped <;> simp [registers, fails, hstopped, MotisInstance.react]
  | onMsg msg =>
    obtain ⟨id, content⟩ := msg
    rw [Remote.handle, Remote.onMsg]
    cases hstopped : r.stopped with
    | true => cases content <;> simp [registers, fails, hstopped]
    | false =>
      cases content with
      | apiDescription methods => simp [registers, hstopped, MotisInstance.react]
      | other =>
        by_cases hpending : id ∈ r.pending
        · simp [registers, fails, hpending, Remote.complete, MotisInstance.react]
        · simp [registers, fails, hpending]
  | send target =>
    rw [Remote.handle, Remote.send]
    cases hstopped : r.stopped <;> simp [registers, fails, MotisInstance.react]
  | timerHandler id =>
    rw [Remote.handle, Remote.timerHandler]
    by_cases hpending : id ∈ r.pending
    · cases haborted : r.timers id == .queued true <;>
        simp [registers, fails, hpending, Remote.complete, MotisInstance.react]
    · simp [registers, fails, hpending]

theorem not_fails_of_registers {r : Remote} {e : RemoteEvent} (h : registers r e = true) :
    fails r e = false := by
  cases e with
  | onFail => cases h
  | _ => rfl

@[simp] theorem connectedRemotes_onRegister (m : MotisInstance Op) :
    m.onRegister.connectedRemotes = m.connectedRemotes + 1 := by
  rw [MotisInstance.onRegister]
  split_ifs <;> rfl

@[simp] theorem registered_onRegister (m : MotisInstance Op) :
    m.onRegister.registered = m.registered := by
  rw [MotisInstance.onRegister]
  split_ifs <;> rfl

@[simp] theorem remotes_onRegister (m : MotisInstance Op) : m.onRegister.remotes = m.remotes := by
  rw [MotisInstance.onRegister]
  split_ifs <;> rfl

@[simp] theorem registrations_onRegister (m : MotisInstance Op) :
    m.onRegister.registrations = m.registrations := by
  rw [MotisInstance.onRegister]
  split_ifs <;> rfl

@[simp] theorem failures_onRegister (m : MotisInstance Op) :
    m.onRegister.failures = m.failures := by
  rw [MotisInstance.onRegister]
  split_ifs <;> rfl

section Steps
variable {m : MotisInstance Op} {e : InstanceEvent} {r : Remote}

/-- A step records the event, then the instance is called back. -/
theorem step_eq (hr : m.remotes[e.i]? = some r) :
    ∃ reg r', m.step e =
      let m' := m.record reg e.i r' (registers r e.event) (fails r e.event)
      if registers r e.event then m'.onRegister.onRegister
      else if fails r e.event then m'.onUnregister else m' := by
  refine ⟨(r.handle e.i m.reg e.event).1, (r.handle e.i m.reg e.event).2.1, ?_⟩
  rw [MotisInstance.step, hr]
  exact handle_reports r e.i m.reg e.event _

/-- A registration counts twice, for one remote. -/
theorem step_registers (hr : m.remotes[e.i]? = some r) (h : registers r e.event = true) :
    (m.step e).connectedRemotes = m.connectedRemotes + 1 + 1 ∧
      (m.step e).registered = insert e.i m.registered ∧
      (m.step e).registrations = m.registrations + 1 ∧ (m.step e).failures = m.failures := by
  obtain ⟨reg, r', heq⟩ := step_eq hr
  rw [heq]
  simp [MotisInstance.record, h, not_fails_of_registers h]

/-- A failure counts down. -/
theorem step_fails (hr : m.remotes[e.i]? = some r) (h : fails r e.event = true) :
    (m.step e).connectedRemotes = m.connectedRemotes - 1 ∧
      (m.step e).registered = m.registered.erase e.i ∧
      (m.step e).registrations = m.registrations ∧ (m.step e).failures = m.failures + 1 := by
  have hregisters : registers r e.event = false :=
    Bool.eq_false_iff.mpr fun hreg => by simp [not_fails_of_registers hreg] at h
  obtain ⟨reg, r', heq⟩ := step_eq hr
  rw [heq]
  simp [MotisInstance.record, MotisInstance.onUnregister, h, hregisters]

/-- Any other event leaves the counter, the registered remotes and the messages alone. -/
theorem step_quiet (hr : m.remotes[e.i]? = some r) (h : registers r e.event = false)
    (h' : fails r e.event = false) :
    ∃ reg r', m.step e = { m with reg := reg, remotes := m.remotes.set e.i r' } := by
  obtain ⟨reg, r', heq⟩ := step_eq hr
  refine ⟨reg, r', ?_⟩
  rw [heq]
  simp [MotisInstance.record, h, h']

end Steps

/-! ### Runs -/

/-- Two for every registration, less one for every failure, in 32 bits. -/
def Balanced (m : MotisInstance Op) : Prop :=
  (m.connectedRemotes.toNat + m.failures) % 2 ^ 32 = 2 * m.registrations % 2 ^ 32

theorem balanced_step {m : MotisInstance Op} {e : InstanceEvent} (h : Balanced m)
    (henabled : remotes.enabled m e) : Balanced (m.step e) := by
  obtain ⟨r, hr, -⟩ := henabled
  rw [Balanced] at h ⊢
  cases hregisters : registers r e.event with
  | true =>
    obtain ⟨hconnected, -, hregistrations, hfailures⟩ := step_registers hr hregisters
    rw [hconnected, hregistrations, hfailures]
    simp only [UInt32.toNat_add, UInt32.toNat_one]
    omega
  | false =>
    cases hfails : fails r e.event with
    | true =>
      obtain ⟨hconnected, -, hregistrations, hfailures⟩ := step_fails hr hfails
      rw [hconnected, hregistrations, hfailures]
      simp only [UInt32.toNat_sub, UInt32.toNat_one]
      omega
    | false =>
      obtain ⟨reg, r', heq⟩ := step_quiet hr hregisters hfails
      rw [heq]
      exact h

/-- The counter of every run. -/
theorem balanced_run (reg : Registry Op ℕ) (set : Bool) (n : ℕ) (es : List InstanceEvent)
    (hrun : Feasible remotes (MotisInstance.initRemotes reg set n) es) :
    Balanced (exec remotes (MotisInstance.initRemotes reg set n) es) := by
  have hinit : Balanced (MotisInstance.initRemotes reg set n) := rfl
  have hall := always_of_inductive (fun _ _ h henabled => balanced_step h henabled) hinit hrun
  exact hall.last

/-- Nothing has been counted. -/
def Uncounted (m : MotisInstance Op) : Prop := m.connectedRemotes = 0 ∧ m.registered = ∅

theorem uncounted_step {m : MotisInstance Op} {e : InstanceEvent} (h : Uncounted m)
    (henabled : remotes.enabled m e) (hquiet : Quiet m e) : Uncounted (m.step e) := by
  obtain ⟨r, hr, -⟩ := henabled
  obtain ⟨reg, r', heq⟩ := step_quiet hr (hquiet r hr).1 (hquiet r hr).2
  rw [heq]
  exact h

/-- The first registration or failure makes the counter wrong. -/
theorem quiet_of_counted {m : MotisInstance Op} {e : InstanceEvent} (h : Uncounted m)
    (hcounted : Counted (m.step e)) : Quiet m e := by
  intro r hr
  rw [Counted] at hcounted
  cases hregisters : registers r e.event with
  | true =>
    obtain ⟨hconnected, hregistered, -⟩ := step_registers hr hregisters
    rw [hconnected, hregistered, h.1, h.2] at hcounted
    simp at hcounted
  | false =>
    cases hfails : fails r e.event with
    | true =>
      obtain ⟨hconnected, hregistered, -⟩ := step_fails hr hfails
      rw [hconnected, hregistered, h.1, h.2] at hcounted
      simp at hcounted
    | false => exact ⟨rfl, rfl⟩

/-- A quiet step neither registers a remote nor retries a message. -/
theorem retriesWhenComplete_of_quiet {m : MotisInstance Op} {e : InstanceEvent}
    (henabled : remotes.enabled m e) (hquiet : Quiet m e) : RetriesWhenComplete m e := by
  obtain ⟨r, hr, -⟩ := henabled
  obtain ⟨reg, r', heq⟩ := step_quiet hr (hquiet r hr).1 (hquiet r hr).2
  rw [RetriesWhenComplete, heq]
  simp [Complete]

/-- CORRECT: the counter is the number of registered remotes throughout a run, and messages are
    retried when the last of them registers, if and only if no remote registers or fails in it. -/
theorem counted_iff_quiet (reg : Registry Op ℕ) (set : Bool) (n : ℕ) (es : List InstanceEvent)
    (hrun : Feasible remotes (MotisInstance.initRemotes reg set n) es) :
    (Always remotes Counted (MotisInstance.initRemotes reg set n) es ∧
      Each remotes RetriesWhenComplete (MotisInstance.initRemotes reg set n) es) ↔
    Each remotes Quiet (MotisInstance.initRemotes reg set n) es := by
  have hcounted := always_iff_each (M := remotes) (I := Uncounted) (P := Counted) (Q := Quiet)
    (fun _ _ h henabled hquiet => uncounted_step h henabled hquiet)
    (fun m h => by rw [Counted, h.1, h.2]; rfl) (fun _ _ h _ => quiet_of_counted h)
    (⟨rfl, rfl⟩ : Uncounted (MotisInstance.initRemotes reg set n)) hrun
  rw [hcounted]
  constructor
  · rintro ⟨hquiet, -⟩
    exact hquiet
  · intro hquiet
    exact ⟨hquiet, each_of_invariant (I := fun _ => True) (fun _ _ _ _ _ => trivial)
      (fun _ _ _ henabled hquiet => retriesWhenComplete_of_quiet henabled hquiet) trivial hrun
      hquiet⟩

theorem counted_iff_quiet_connecting :
    (Always remotes Counted (MotisInstance.initRemotes ({} : Registry ℕ ℕ) true 2)
        [⟨0, .onConnect true⟩, ⟨1, .onConnect false⟩, ⟨0, .restartHandler false⟩] ∧
      Each remotes RetriesWhenComplete (MotisInstance.initRemotes ({} : Registry ℕ ℕ) true 2)
        [⟨0, .onConnect true⟩, ⟨1, .onConnect false⟩, ⟨0, .restartHandler false⟩]) ↔
    Each remotes Quiet (MotisInstance.initRemotes ({} : Registry ℕ ℕ) true 2)
      [⟨0, .onConnect true⟩, ⟨1, .onConnect false⟩, ⟨0, .restartHandler false⟩] :=
  counted_iff_quiet {} true 2 _ ⟨⟨_, rfl, rfl⟩, ⟨_, rfl, rfl⟩, ⟨_, rfl, trivial⟩, trivial⟩

/-- One of two remotes registers: the counter says two, and the messages are retried. -/
theorem one_counts_as_two :
    Feasible remotes (MotisInstance.initRemotes ({} : Registry ℕ ℕ) true 2)
      [⟨0, .onConnect false⟩, ⟨0, .onMsg ⟨1, .apiDescription ["/a"]⟩⟩] ∧
    ¬ (Always remotes Counted (MotisInstance.initRemotes ({} : Registry ℕ ℕ) true 2)
        [⟨0, .onConnect false⟩, ⟨0, .onMsg ⟨1, .apiDescription ["/a"]⟩⟩] ∧
      Each remotes RetriesWhenComplete (MotisInstance.initRemotes ({} : Registry ℕ ℕ) true 2)
        [⟨0, .onConnect false⟩, ⟨0, .onMsg ⟨1, .apiDescription ["/a"]⟩⟩]) := by
  refine ⟨⟨⟨_, rfl, rfl⟩, ⟨_, rfl, rfl⟩, trivial⟩, fun h => ?_⟩
  have hlast := h.1.last
  rw [Counted] at hlast
  revert hlast
  decide

end Motis.Bootstrap
