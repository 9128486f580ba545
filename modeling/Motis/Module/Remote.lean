import Mathlib.Data.Finset.Basic
import Mathlib.Logic.Function.Basic
import Motis.Module.Registry

/-! The client of a remote server.

    A remote connects to its server, registers the operations the server offers, and forwards
    requests to it. Every request gets an id, a callback in `pending` and a timer in `timeouts`:

        send ──▶ waiting ──60 s──▶ queued (expired) ──▶ done
                    │                  ▲
                    └───cancel────▶ queued (aborted)

    A wait of a timer ends exactly once, expired or aborted, and its handler runs some time later;
    cancelling a timer whose handler is already queued has no effect.

    What the io service and the connection do to a remote are its events, what it does to them its
    outputs. The callback of a request is named by the id of the request. -/

namespace Motis.Module

/-- `int32_t`, whose overflow is undefined. -/
abbrev ReqId := ℤ

inductive Content where
  | apiDescription (methods : List String)
  | other
  deriving DecidableEq, Repr

structure RemoteMsg where
  id : ReqId
  content : Content
  deriving DecidableEq, Repr

/-- What a callback is invoked with. -/
inductive CallbackResult where
  | response (msg : RemoteMsg)
  | operationCanceled
  deriving DecidableEq, Repr

/-- The wait of a `deadline_timer`. -/
inductive TimerState where
  | unset
  | waiting
  | queued (aborted : Bool)
  | done
  deriving DecidableEq, Repr

def TimerState.cancel : TimerState → TimerState
  | .waiting => .queued true
  | t => t

inductive Output where
  | wsSend (id : ReqId) (target : String)
  | callback (id : ReqId) (result : CallbackResult)
  | scheduleRestart
  | onRegister
  | onUnregister
  deriving DecidableEq, Repr

structure Remote where
  stopped : Bool := false
  ws : Bool := false
  timers : ReqId → TimerState := fun _ => .unset
  timeouts : Finset ReqId := ∅
  pending : Finset ReqId := ∅
  methods : List String := []
  nextReqId : ReqId := 0

inductive RemoteEvent where
  | start
  | stop
  | onConnect (failed : Bool)
  | onFail
  | onMsg (msg : RemoteMsg)
  | send (target : String)
  /-- 60 seconds after a request was sent. -/
  | timerExpires (id : ReqId)
  /-- The io service runs the handler of a wait that has ended. -/
  | timerHandler (id : ReqId)
  /-- The handler of `schedule_restart`. -/
  | restartHandler (aborted : Bool)
  deriving DecidableEq, Repr

namespace Remote

def stop (r : Remote) : Remote :=
  { r with
    stopped := true
    timers := fun id => if id ∈ r.timeouts then (r.timers id).cancel else r.timers id }

def start (r : Remote) : Remote := if r.stopped then r else { r with ws := true }

/-- The callback stored in `pending`: the caller's, then the timer is cancelled. -/
def complete (r : Remote) (id : ReqId) (result : CallbackResult) : Remote × List Output :=
  ({ r with timers := Function.update r.timers id (r.timers id).cancel }, [.callback id result])

def onConnect (r : Remote) (failed : Bool) : Remote × List Output :=
  if failed then (r, [.scheduleRestart])
  else ({ r with nextReqId := r.nextReqId + 1 }, [.wsSend (r.nextReqId + 1) "/api"])

def send (r : Remote) (target : String) : Remote × List Output :=
  if r.stopped then (r, [])
  else
    let id := r.nextReqId + 1
    ({ r with
      nextReqId := id
      timeouts := insert id r.timeouts
      timers := Function.update r.timers id .waiting
      pending := insert id r.pending }, [.wsSend id target])

def timerExpires (r : Remote) (id : ReqId) : Remote :=
  { r with timers := Function.update r.timers id (.queued false) }

/-- The handler given to `async_wait`. -/
def timerHandler (r : Remote) (id : ReqId) (aborted : Bool) : Remote × List Output :=
  let r := { r with timers := Function.update r.timers id .done }
  if id ∈ r.pending then
    -- the handler returns from here without erasing anything
    if !aborted then r.complete id .operationCanceled
    else
      ({ r with pending := r.pending.erase id, timeouts := r.timeouts.erase id }, [])
  else ({ r with timeouts := r.timeouts.erase id }, [])

variable {Op RemoteOp : Type}

def onFail (reg : Registry Op RemoteOp) (r : Remote) :
    Registry Op RemoteOp × Remote × List Output :=
  if r.stopped then (reg, r, [])
  else
    (reg.unregisterRemoteOp r.methods, { r with methods := [] },
      [.scheduleRestart, .onUnregister])

def onMsg (me : RemoteOp) (reg : Registry Op RemoteOp) (r : Remote) (msg : RemoteMsg) :
    Registry Op RemoteOp × Remote × List Output :=
  if r.stopped then (reg, r, [])
  else match msg.content with
    | .apiDescription methods =>
      let (reg, successfulNames) := reg.registerRemoteOps methods me
      -- `on_register` is called before and after the methods are logged
      (reg, { r with methods := successfulNames }, [.onRegister, .onRegister])
    | .other =>
      if msg.id ∈ r.pending then (reg, r.complete msg.id (.response msg)) else (reg, r, [])

/-- An event that can happen: callbacks of the connection need one, timers a wait. -/
def Enabled (r : Remote) : RemoteEvent → Prop
  | .onConnect _ | .onFail | .onMsg _ => r.ws = true
  | .send _ => r.stopped = true ∨ r.ws = true
  | .timerExpires id => r.timers id = .waiting
  | .timerHandler id => ∃ aborted, r.timers id = .queued aborted
  | .start | .stop | .restartHandler _ => True

/-- What an event does to the registry and to the remote `me`. -/
def handle (me : RemoteOp) (reg : Registry Op RemoteOp) (r : Remote) :
    RemoteEvent → Registry Op RemoteOp × Remote × List Output
  | .start => (reg, r.start, [])
  | .stop => (reg, r.stop, [])
  | .onConnect failed => (reg, r.onConnect failed)
  | .onFail => r.onFail reg
  | .onMsg msg => r.onMsg me reg msg
  | .send target => (reg, r.send target)
  | .timerExpires id => (reg, r.timerExpires id, [])
  | .timerHandler id => (reg, r.timerHandler id (r.timers id == .queued true))
  | .restartHandler aborted => (reg, if !r.stopped && !aborted then r.start else r, [])

end Remote

end Motis.Module
