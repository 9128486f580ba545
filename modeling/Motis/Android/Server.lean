import Motis.Lib.ArrayList
import Motis.Lib.Runs
import Mathlib.Data.Int.Notation

/-! The requests of the app to its server.

    A request is sent over the current socket when that is open, or put in a queue that the next
    connection sends:

        call ──┬──▶ send ─────────────────────────┬──▶ response
               └──▶ sendQueue ──▶ onConnected ────┴──▶ onDisconnected: error

    Sockets are created by `connect`, change their states on their own, and report to the one
    server, also after another one has replaced them. -/

namespace Motis.Android
open Runs

/-! ### Sockets, messages and listeners -/

inductive WebSocketState where | created | connecting | open | closing | closed
  deriving DecidableEq, Repr

/-- The states that may follow. -/
def WebSocketState.next : WebSocketState → WebSocketState → Bool
  | .created, .connecting | .created, .closed => true
  | .connecting, .open | .connecting, .closed => true
  | .open, .closing => true
  | .closing, .closed => true
  | _, _ => false

structure WebSocket where
  uri : String
  state : WebSocketState
  deriving DecidableEq, Repr

abbrev Bytes := List UInt8

/-- A number of the union `MsgContent`. -/
abbrev MsgContent := UInt8

def motisError : MsgContent := 2

structure Message where
  id : ℤ
  contentType : MsgContent
  content : Bytes
  deriving DecidableEq, Repr

/-- The listener of a subscription; two of them are never the same object. -/
structure ResponseListener where
  object : ℕ
  responseId : ℤ
  responseType : MsgContent
  deriving DecidableEq, Repr

structure SendQueueEntry where
  msg : Bytes
  l : ResponseListener
  deriving DecidableEq, Repr

/-- What a subscriber is given. -/
inductive Notification where
  | response (content : Bytes)
  | motisError (content : Bytes)
  | unexpectedMessageType
  | disconnected
  deriving DecidableEq, Repr

/-! ### The server -/

structure Server where
  url : String
  listeners : ArrayList ResponseListener := {}
  listenerSockets : ResponseListener → Option ℕ := fun _ => none
  /-- The current one of the sockets. -/
  ws : Option ℕ := none
  sendQueue : ArrayList SendQueueEntry := {}
  sockets : List WebSocket := []
  /-- The number of timers that run for `tryConnect`. -/
  scheduled : ℕ := 0
  /-- The number of listeners that were created. -/
  objects : ℕ := 0
  unsubscribed : List ResponseListener := []
  /-- What subscribers were given. -/
  given : List (ResponseListener × Notification) := []
  /-- The messages that sockets have sent. -/
  sent : List (ℕ × SendQueueEntry) := []
  /-- The messages that were queued while disconnected. -/
  queued : List SendQueueEntry := []

namespace Server

variable (m : Server)

def stateOf (s : ℕ) : Option WebSocketState := (m.sockets[s]?).map (·.state)

def setState (s : ℕ) (state : WebSocketState) : Server :=
  { m with sockets := m.sockets.modify s ({ · with state }) }

def scheduleConnect : Server := { m with scheduled := m.scheduled + 1 }

def isConnected : Bool :=
  match m.ws with
  | none => false
  | some s => m.stateOf s = some .open

/-- A socket that is not open closes on its own, or not at all. -/
def disconnect : Server :=
  match m.ws with
  | none => m
  | some s => if m.stateOf s = some .open then m.setState s .closing else m

/-- `uri` is the one of the socket that the factory creates, if it creates one. -/
def createSocket (uri : Option String) : Server × Bool :=
  match uri with
  | some uri =>
    ({ m with ws := some m.sockets.length, sockets := m.sockets ++ [⟨uri, .created⟩] }, true)
  | none => (m, false)

/-- With whether no exception is thrown. -/
def connect (uri : Option String) : Server × Bool :=
  match m.ws.bind fun s => m.sockets[s]? with
  | some ws =>
    if ws.state ≠ .closed ∧ ws.state ≠ .closing then
      if ws.uri ≠ m.url then m.disconnect.createSocket uri else (m, true)
    else m.createSocket uri
  | none => m.createSocket uri

def tryConnect (uri : Option String) : Server :=
  let (m, connected) := m.connect uri
  if connected then m else m.scheduleConnect

def setUrl (url : String) (uri : Option String) : Server :=
  if m.url ≠ url then ({ m with url }.disconnect).tryConnect uri else m

/-! ### Requests -/

def send (e : SendQueueEntry) : Server :=
  match m.ws, m.isConnected with
  | some s, true =>
    { m with
      listenerSockets := fun l => if l = e.l then some s else m.listenerSockets l
      sent := m.sent ++ [(s, e)] }
  | _, _ => { m with sendQueue := m.sendQueue.add e }.scheduleConnect

def removeListener (l : ResponseListener) : Server :=
  { m with
    listeners := m.listeners.remove l
    listenerSockets := fun k => if k = l then none else m.listenerSockets k }

def give (l : ResponseListener) (n : Notification) : Server :=
  { m with given := m.given ++ [(l, n)] }

/-- A subscription of a request. -/
def call (request : Bytes) (responseType : MsgContent) (responseId : ℤ) : Server :=
  let l : ResponseListener := ⟨m.objects, responseId, responseType⟩
  let queued := if m.isConnected then m.queued else m.queued ++ [⟨request, l⟩]
  { m with objects := m.objects + 1, listeners := m.listeners.add l, queued }.send ⟨request, l⟩

def onMessage (l : ResponseListener) (msg : Message) : Server :=
  if l ∈ m.unsubscribed then m.removeListener l
  else if msg.id ≠ l.responseId then m
  else
    let n : Notification :=
      if msg.contentType = l.responseType then .response msg.content
      else if msg.contentType = Android.motisError then .motisError msg.content
      else .unexpectedMessageType
    (m.give l n).removeListener l

def onDisconnect (l : ResponseListener) : Server :=
  (m.give l .disconnected).removeListener l

/-! ### Events of the sockets -/

/-- The loop is over a copy of the listeners. -/
def onBinaryMessage (msg : Message) : Server :=
  m.listeners.elements.foldl (fun m l => m.onMessage l msg) m

/-- An exception leaves the handler. -/
def onConnected : Server :=
  match ArrayList.forEach sendQueue send m with
  | .finished m => { m with sendQueue := m.sendQueue.clear }
  | .concurrentModification m => m

/-- A listener of the current socket is told, whichever socket the event is from. -/
def onDisconnectedBody (l : ResponseListener) : Server :=
  if m.listenerSockets l = m.ws then m.onDisconnect l else m

def onDisconnected : Server :=
  match ArrayList.forEach listeners onDisconnectedBody m with
  | .finished m => m.scheduleConnect
  | .concurrentModification m => m

def onConnectError : Server := m.scheduleConnect

end Server

/-! ### Runs -/

inductive ServerEvent where
  | call (request : Bytes) (responseType : MsgContent) (responseId : ℤ)
  | unsubscribe (l : ResponseListener)
  | connect (uri : Option String)
  | setUrl (url : String) (uri : Option String)
  /-- A timer ends. -/
  | tryConnect (uri : Option String)
  | stateChanged (s : ℕ) (state : WebSocketState)
  | connected (s : ℕ)
  | connectError (s : ℕ)
  | disconnected (s : ℕ)
  | binaryMessage (s : ℕ) (msg : Message)

namespace Server

variable (m : Server)

def step : ServerEvent → Server
  | .call request responseType responseId => m.call request responseType responseId
  | .unsubscribe l => { m with unsubscribed := l :: m.unsubscribed }
  | .connect uri => (m.connect uri).1
  | .setUrl url uri => m.setUrl url uri
  | .tryConnect uri => { m with scheduled := m.scheduled - 1 }.tryConnect uri
  | .stateChanged s state => m.setState s state
  | .connected _ => m.onConnected
  | .connectError _ => m.onConnectError
  | .disconnected _ => m.onDisconnected
  | .binaryMessage _ msg => m.onBinaryMessage msg

/-- An event of a socket comes in a state that it has then, or has gone on from. -/
def Enabled : ServerEvent → Prop
  | .tryConnect _ => 0 < m.scheduled
  | .stateChanged s state => (m.stateOf s).any (·.next state) = true
  | .connected s => m.stateOf s ∈ [some .open, some .closing, some .closed]
  | .connectError s | .disconnected s => m.stateOf s = some .closed
  | .binaryMessage s _ => m.stateOf s ∈ [some .open, some .closing]
  | _ => True

end Server

def server : System Server ServerEvent where
  enabled := Server.Enabled
  step := Server.step

instance (m : Server) (e : ServerEvent) : Decidable (server.enabled m e) :=
  match e with
  | .tryConnect _ => inferInstanceAs (Decidable (_ < _))
  | .stateChanged _ _ | .connectError _ | .disconnected _ => inferInstanceAs (Decidable (_ = _))
  | .connected _ | .binaryMessage _ _ => inferInstanceAs (Decidable (_ ∈ _))
  | .call .. | .unsubscribe _ | .connect _ | .setUrl _ _ => .isTrue trivial

end Motis.Android
