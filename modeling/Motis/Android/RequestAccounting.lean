import Motis.Android.Server
import Mathlib.Data.List.Nodup
import Mathlib.Order.Basic
import Mathlib.Order.Nat

/-! The accounting of the requests.

    Every open request has at most one socket, the one that its message was sent over. The handler
    of a disconnect event looks for the requests of the current socket, and its loop ends with the
    first one:

        event of …              requests failed
        the current socket      the first one of its requests
        a replaced one          the first one of the current socket -/

namespace Motis.Android
open Runs

namespace Server

variable (m : Server)

/-! ### The handlers -/

/-- The requests whose messages went over the socket, as the server knows. -/
def openOver (s : Option ℕ) : List ResponseListener :=
  m.listeners.elements.filter (m.listenerSockets · = s)

theorem send_connected {s : ℕ} (hws : m.ws = some s) (h : m.isConnected = true)
    (e : SendQueueEntry) : m.send e =
      { m with
        listenerSockets := fun l => if l = e.l then some s else m.listenerSockets l
        sent := m.sent ++ [(s, e)] } := by
  rw [send]
  simp only [hws, h]

theorem send_disconnected (h : m.isConnected = false) (e : SendQueueEntry) : m.send e =
    { m with sendQueue := m.sendQueue.add e, scheduled := m.scheduled + 1 } := by
  rw [send]
  cases hws : m.ws with
  | none => rfl
  | some s =>
    simp only [h]
    rfl

theorem exists_ws_of_isConnected (h : m.isConnected = true) : ∃ s, m.ws = some s := by
  cases hws : m.ws with
  | none => simp [isConnected, hws] at h
  | some s => exact ⟨s, rfl⟩

theorem foldl_send {s : ℕ} (es : List SendQueueEntry) : ∀ m : Server, m.ws = some s →
    m.isConnected = true → es.foldl send m =
      { m with
        listenerSockets := fun l =>
          if l ∈ es.map (·.l) then some s else m.listenerSockets l
        sent := m.sent ++ es.map (s, ·) } := by
  induction es with
  | nil => intro m _ _; simp
  | cons e es ih =>
    intro m hws h
    obtain ⟨hws', h'⟩ : (m.send e).ws = some s ∧ (m.send e).isConnected = true := by
      rw [m.send_connected hws h]
      exact ⟨hws, h⟩
    rw [List.foldl_cons, ih (m.send e) hws' h', m.send_connected hws h]
    congr 1
    · funext l
      by_cases hl : l ∈ es.map (·.l)
      · simp [hl]
      · by_cases he : l = e.l <;> simp [hl, he]
    · simp

/-- With a connection the queue is sent. -/
theorem onConnected_connected {s : ℕ} (hws : m.ws = some s) (h : m.isConnected = true) :
    m.onConnected =
      { m with
        listenerSockets := fun l =>
          if l ∈ m.sendQueue.elements.map (·.l) then some s else m.listenerSockets l
        sent := m.sent ++ m.sendQueue.elements.map (s, ·)
        sendQueue := m.sendQueue.clear } := by
  have hkeep : ∀ (m' : Server) (e : SendQueueEntry), m'.ws = some s ∧ m'.isConnected = true →
      ((m'.send e).ws = some s ∧ (m'.send e).isConnected = true) ∧
        (m'.send e).sendQueue = m'.sendQueue := by
    rintro m' e ⟨hws', h'⟩
    rw [m'.send_connected hws' h']
    exact ⟨⟨hws', h'⟩, rfl⟩
  rw [onConnected, ArrayList.forEach_eq_foldl hkeep ⟨hws, h⟩]
  simp only [foldl_send _ m hws h]

theorem onConnected_nil (h : m.sendQueue.elements = []) :
    m.onConnected = { m with sendQueue := m.sendQueue.clear } := by
  rw [onConnected, ArrayList.forEach_eq_self fun e he => by rw [h] at he; cases he]

/-- Without a connection the first message comes into the queue once more. -/
theorem onConnected_cons {e : SendQueueEntry} {es : List SendQueueEntry}
    (hqueue : m.sendQueue.elements = e :: es) (h : m.isConnected = false) :
    m.onConnected = m.send e := by
  have hsend : (m.send e).sendQueue = m.sendQueue.add e := by rw [m.send_disconnected h]
  have hmodified : (m.send e).sendQueue.modCount ≠ m.sendQueue.modCount := by
    rw [hsend]
    exact Nat.succ_ne_self _
  have hsize : ([] : List SendQueueEntry).length + 1 ≠ (m.send e).sendQueue.size := by
    rw [hsend, ArrayList.size, ArrayList.elements_add, hqueue]
    simp
  have hbefore : ∀ y ∈ ([] : List SendQueueEntry), m.send y = m := fun y hy => by cases hy
  rw [onConnected, ArrayList.forEach_eq_of_first hqueue hbefore hmodified, if_neg hsize]

theorem onDisconnected_nil (h : m.openOver m.ws = []) : m.onDisconnected = m.scheduleConnect := by
  have hkeep : ∀ l ∈ m.listeners.elements, m.onDisconnectedBody l = m := by
    intro l hl
    have hother := List.filter_eq_nil_iff.mp h l hl
    rw [onDisconnectedBody, if_neg fun heq => hother (decide_eq_true heq)]
  rw [onDisconnected, ArrayList.forEach_eq_self hkeep]

/-- Only the first request of the current socket fails. -/
theorem onDisconnected_cons {l : ResponseListener} {ls : List ResponseListener}
    (h : m.openOver m.ws = l :: ls) :
    ∃ scheduled, m.onDisconnected = { m.onDisconnect l with scheduled } := by
  obtain ⟨before, after, hlist, hbefore, hl, -⟩ := List.filter_eq_cons_iff.mp h
  have hbody : m.onDisconnectedBody l = m.onDisconnect l := by
    rw [onDisconnectedBody, if_pos (of_decide_eq_true hl)]
  have hkeep : ∀ k ∈ before, m.onDisconnectedBody k = m := fun k hk => by
    rw [onDisconnectedBody, if_neg fun heq => hbefore k hk (decide_eq_true heq)]
  have hmem : l ∈ m.listeners.elements := by
    rw [hlist]
    exact List.mem_append_right _ (List.mem_cons_self ..)
  have hmodified : (m.onDisconnectedBody l).listeners.modCount ≠ m.listeners.modCount := by
    rw [hbody]
    exact (ArrayList.modCount_remove hmem).trans_ne (Nat.succ_ne_self _)
  rw [onDisconnected, ArrayList.forEach_eq_of_first hlist hkeep hmodified, hbody]
  split
  · rename_i m' hloop
    split at hloop
    · obtain rfl := ArrayList.Loop.finished.inj hloop
      exact ⟨_, rfl⟩
    · cases hloop
  · rename_i m' hloop
    split at hloop
    · cases hloop
    · obtain rfl := ArrayList.Loop.concurrentModification.inj hloop
      exact ⟨(m.onDisconnect l).scheduled, rfl⟩

theorem disconnect_eq : ∃ sockets, m.disconnect = { m with sockets } := by
  rw [disconnect]
  split
  · exact ⟨m.sockets, rfl⟩
  · split
    · exact ⟨_, rfl⟩
    · exact ⟨m.sockets, rfl⟩

theorem connect_eq (uri : Option String) :
    ∃ ws sockets, (m.connect uri).1 = { m with ws, sockets } := by
  have hcreate : ∀ m : Server, ∃ ws sockets, (m.createSocket uri).1 = { m with ws, sockets } := by
    intro m
    cases uri with
    | none => exact ⟨m.ws, m.sockets, rfl⟩
    | some uri => exact ⟨_, _, rfl⟩
  obtain ⟨sockets, hdisconnect⟩ := m.disconnect_eq
  rw [connect]
  split
  · split
    · split
      · rw [hdisconnect]
        exact hcreate _
      · exact ⟨m.ws, m.sockets, rfl⟩
    · exact hcreate m
  · exact hcreate m

/-! ### What is accounted for -/

/-- The message of the request was sent over the socket. -/
def SentOver (s : ℕ) (l : ResponseListener) : Prop := (s, l) ∈ m.sent.map fun x => (x.1, x.2.l)

instance (s : ℕ) (l : ResponseListener) : Decidable (m.SentOver s l) :=
  inferInstanceAs (Decidable (_ ∈ _))

/-- The queued messages that were sent, in the order of sending. -/
def flushed : List SendQueueEntry := (m.sent.map Prod.snd).filter (· ∈ m.queued)

/-- No subscriber is given two notifications, and the queued messages are sent once and in order,
    up to those that wait. -/
structure Accounted (m : Server) : Prop where
  once : (m.given.map Prod.fst).Nodup
  inOrder : m.flushed ++ m.sendQueue.elements = m.queued

/-- A disconnect event fails the open requests of its socket and leaves the others alone; with a
    connection the waiting messages are sent. -/
def Handled : ServerEvent → Prop
  | .disconnected s =>
    m.onDisconnected.listeners.elements = m.listeners.elements.filter (¬m.SentOver s ·) ∧
      m.onDisconnected.given =
        m.given ++ (m.listeners.elements.filter (m.SentOver s ·)).map (·, .disconnected) ∧
      m.onDisconnected.sendQueue = m.sendQueue ∧ m.onDisconnected.sent = m.sent ∧
      ∀ l ∈ m.onDisconnected.listeners.elements,
        m.onDisconnected.listenerSockets l = m.listenerSockets l
  | .connected _ => m.isConnected = true → m.onConnected.sendQueue.elements = [] ∧
      ∃ s, m.ws = some s ∧ m.onConnected.sent = m.sent ++ m.sendQueue.elements.map (s, ·)
  | _ => True

/-- The event of a connection finds the current socket open, or nothing to send. A disconnect event
    is one of the current socket and it has at most one open request, or neither its socket nor the
    current one has any. -/
def Safe : ServerEvent → Prop
  | .connected _ => m.isConnected = true ∨ m.sendQueue.elements = []
  | .disconnected s =>
    if m.ws = some s then (m.openOver (some s)).length ≤ 1
    else m.openOver (some s) = [] ∧ m.openOver m.ws = []
  | _ => True

/-- The listeners are objects that were created. -/
structure Created (m : Server) : Prop where
  listeners : ∀ l ∈ m.listeners.elements, l.object < m.objects
  sockets : ∀ l s, m.listenerSockets l = some s → l.object < m.objects
  given : ∀ l ∈ m.given.map Prod.fst, l.object < m.objects
  sent : ∀ x ∈ m.sent, x.2.l.object < m.objects
  queued : ∀ e ∈ m.queued, e.l.object < m.objects

structure Sound (m : Server) : Prop extends Accounted m where
  created : m.Created
  listeners : m.listeners.elements.Nodup
  /-- Open requests have no notification. -/
  unanswered : ∀ l ∈ m.listeners.elements, l ∉ m.given.map Prod.fst
  /-- No message is sent, or waits, twice. -/
  messages : (m.sent.map (·.2.l) ++ m.sendQueue.elements.map (·.l)).Nodup
  sockets : ∀ l ∈ m.listeners.elements, ∀ s, m.listenerSockets l = some s ↔ m.SentOver s l

variable {m}

theorem Sound.queued_of_waiting (h : m.Sound) {e : SendQueueEntry}
    (he : e ∈ m.sendQueue.elements) : e ∈ m.queued := by
  rw [← h.inOrder]
  exact List.mem_append_right _ he

/-- The server knows the open requests of a socket. -/
theorem Sound.openOver_eq (h : m.Sound) (s : ℕ) :
    m.openOver (some s) = m.listeners.elements.filter (m.SentOver s ·) := by
  rw [openOver]
  exact List.filter_congr fun l hl => decide_eq_decide.mpr (h.sockets l hl s)

/-- The sockets and timers do not matter. -/
theorem Sound.environment (h : m.Sound) (url : String) (ws : Option ℕ) (sockets : List WebSocket)
    (scheduled : ℕ) (unsubscribed : List ResponseListener) :
    Sound { m with url, ws, sockets, scheduled, unsubscribed } :=
  ⟨⟨h.once, h.inOrder⟩, ⟨h.created.listeners, h.created.sockets, h.created.given, h.created.sent,
    h.created.queued⟩, h.listeners, h.unanswered, h.messages, h.sockets⟩

/-! ### Notifications -/

theorem Sound.removeListener (h : m.Sound) (l : ResponseListener) : (m.removeListener l).Sound := by
  have hmem : ∀ k ∈ (m.removeListener l).listeners.elements,
      k ∈ m.listeners.elements ∧ k ≠ l := by
    intro k hk
    rw [Server.removeListener, ArrayList.elements_remove] at hk
    exact ⟨List.mem_of_mem_erase hk, fun heq => (h.listeners.mem_erase_iff.mp hk).1 heq⟩
  refine ⟨⟨h.once, h.inOrder⟩, ⟨?_, ?_, h.created.given, h.created.sent, h.created.queued⟩,
    ?_, ?_, h.messages, ?_⟩
  · exact fun k hk => h.created.listeners k (hmem k hk).1
  · intro k s hk
    rw [Server.removeListener] at hk
    dsimp only at hk
    split at hk
    · cases hk
    · exact h.created.sockets k s hk
  · rw [Server.removeListener, ArrayList.elements_remove]
    exact h.listeners.erase l
  · exact fun k hk => h.unanswered k (hmem k hk).1
  · intro k hk s
    obtain ⟨hk, hne⟩ := hmem k hk
    rw [Server.removeListener]
    dsimp only
    rw [if_neg hne]
    exact h.sockets k hk s

/-- A request that is no longer open may be given something. -/
theorem Sound.give (h : m.Sound) {l : ResponseListener} {n : Notification}
    (hopen : l ∉ m.listeners.elements) (hgiven : l ∉ m.given.map Prod.fst)
    (hcreated : l.object < m.objects) : (m.give l n).Sound := by
  have hfst : (m.give l n).given.map Prod.fst = m.given.map Prod.fst ++ [l] := by
    rw [Server.give, List.map_append, List.map_singleton]
  refine ⟨⟨?_, h.inOrder⟩, ⟨h.created.listeners, h.created.sockets, ?_, h.created.sent,
    h.created.queued⟩, h.listeners, ?_, h.messages, h.sockets⟩
  · rw [hfst]
    exact List.nodup_append.mpr ⟨h.once, List.nodup_singleton l, fun k hk l' hl' heq =>
      hgiven (List.mem_singleton.mp hl' ▸ heq ▸ hk)⟩
  · intro k hk
    rw [hfst] at hk
    rcases List.mem_append.mp hk with hk | hk
    · exact h.created.given k hk
    · rw [List.mem_singleton.mp hk]
      exact hcreated
  · intro k hk hmem
    rw [hfst] at hmem
    rcases List.mem_append.mp hmem with hmem | hmem
    · exact h.unanswered k hk hmem
    · exact hopen (List.mem_singleton.mp hmem ▸ hk)

/-- An open request is answered and then not open. -/
theorem Sound.answer (h : m.Sound) {l : ResponseListener} (hl : l ∈ m.listeners.elements)
    (n : Notification) : ((m.give l n).removeListener l).Sound := by
  have hopen : l ∉ (m.removeListener l).listeners.elements := by
    rw [Server.removeListener, ArrayList.elements_remove]
    exact h.listeners.not_mem_erase
  exact (h.removeListener l).give hopen (h.unanswered l hl) (h.created.listeners l hl)

theorem Sound.onMessage (h : m.Sound) {l : ResponseListener} (hl : l ∈ m.listeners.elements)
    (msg : Message) : (m.onMessage l msg).Sound := by
  rw [Server.onMessage]
  split
  · exact h.removeListener l
  · split
    · exact h
    · exact h.answer hl _

/-- A listener is only removed by its own call. -/
theorem mem_listeners_onMessage {k l : ResponseListener} {msg : Message}
    (hk : k ∈ m.listeners.elements) (hne : k ≠ l) :
    k ∈ (m.onMessage l msg).listeners.elements := by
  have hremoved : k ∈ (m.listeners.remove l).elements := by
    rw [ArrayList.elements_remove]
    exact (List.mem_erase_of_ne hne).mpr hk
  rw [Server.onMessage]
  split
  · exact hremoved
  · split
    · exact hk
    · exact hremoved

theorem Sound.onMessages (msg : Message) : ∀ (ls : List ResponseListener) {m : Server}, m.Sound →
    ls.Nodup → (∀ l ∈ ls, l ∈ m.listeners.elements) →
      (ls.foldl (fun m l => m.onMessage l msg) m).Sound
  | [], _, h, _, _ => h
  | l :: ls, m, h, hnodup, hopen => by
    obtain ⟨hl, hnodup⟩ := List.nodup_cons.mp hnodup
    refine Sound.onMessages msg ls (h.onMessage (hopen l (List.mem_cons_self ..)) msg) hnodup
      fun k hk => ?_
    exact mem_listeners_onMessage (hopen k (List.mem_cons_of_mem l hk)) fun heq => hl (heq ▸ hk)

theorem Sound.onDisconnected (h : m.Sound) : m.onDisconnected.Sound := by
  cases hopen : m.openOver m.ws with
  | nil =>
    rw [onDisconnected_nil m hopen]
    exact h.environment m.url m.ws m.sockets (m.scheduled + 1) m.unsubscribed
  | cons l ls =>
    obtain ⟨scheduled, heq⟩ := onDisconnected_cons m hopen
    have hl : l ∈ m.openOver m.ws := hopen ▸ List.mem_cons_self ..
    have hanswer := h.answer (List.mem_filter.mp hl).1 .disconnected
    rw [heq]
    exact hanswer.environment m.url m.ws m.sockets scheduled m.unsubscribed

/-! ### Messages -/

/-- A listener that has no message yet. -/
theorem Sound.not_mem_queued (h : m.Sound) {e : SendQueueEntry}
    (hnew : e.l ∉ m.sent.map (·.2.l) ++ m.sendQueue.elements.map (·.l)) : e ∉ m.queued := by
  intro he
  rw [← h.inOrder] at he
  rcases List.mem_append.mp he with hflushed | hwaiting
  · obtain ⟨x, hx, rfl⟩ := List.mem_map.mp (List.mem_filter.mp hflushed).1
    exact hnew (List.mem_append_left _ (List.mem_map.mpr ⟨x, hx, rfl⟩))
  · exact hnew (List.mem_append_right _ (List.mem_map.mpr ⟨e, hwaiting, rfl⟩))

theorem Sound.not_sentOver (h : m.Sound) {l : ResponseListener} (hl : m.objects ≤ l.object)
    (s : ℕ) : ¬m.SentOver s l := by
  intro hs
  obtain ⟨x, hx, heq⟩ := List.mem_map.mp hs
  have hobject : x.2.l.object < m.objects := h.created.sent x hx
  rw [(Prod.mk.inj heq).2] at hobject
  omega

/-- A new listener is the last one that was created. -/
theorem Sound.register (h : m.Sound) {l : ResponseListener} (hl : l.object = m.objects) :
    Sound { m with objects := m.objects + 1, listeners := m.listeners.add l } := by
  have hfresh : ∀ k : ResponseListener, k.object < m.objects → k ≠ l := by
    rintro k hk rfl
    omega
  have hmem : ∀ k ∈ (m.listeners.add l).elements, k ∈ m.listeners.elements ∨ k = l := by
    intro k hk
    rcases List.mem_append.mp hk with hk | hk
    · exact Or.inl hk
    · exact Or.inr (List.mem_singleton.mp hk)
  refine ⟨⟨h.once, h.inOrder⟩, ⟨?_, ?_, ?_, ?_, ?_⟩, ?_, ?_, h.messages, ?_⟩
  · intro k hk
    rcases hmem k hk with hk | rfl
    · exact Nat.lt_succ_of_lt (h.created.listeners k hk)
    · exact Nat.lt_succ_of_le hl.le
  · exact fun k s hk => Nat.lt_succ_of_lt (h.created.sockets k s hk)
  · exact fun k hk => Nat.lt_succ_of_lt (h.created.given k hk)
  · exact fun x hx => Nat.lt_succ_of_lt (h.created.sent x hx)
  · exact fun e he => Nat.lt_succ_of_lt (h.created.queued e he)
  · exact List.nodup_append.mpr ⟨h.listeners, List.nodup_singleton l, fun k hk l' hl' =>
      List.mem_singleton.mp hl' ▸ hfresh k (h.created.listeners k hk)⟩
  · intro k hk
    rcases hmem k hk with hk | rfl
    · exact h.unanswered k hk
    · exact fun hgiven => hfresh k (h.created.given k hgiven) rfl
  · intro k hk s
    rcases hmem k hk with hk | rfl
    · exact h.sockets k hk s
    · constructor
      · exact fun hsocket => absurd rfl (hfresh k (h.created.sockets k s hsocket))
      · exact fun hs => absurd hs (h.not_sentOver hl.ge s)

/-- A message is sent over the current socket. -/
theorem Sound.send (h : m.Sound) {s : ℕ} (hws : m.ws = some s) (hconnected : m.isConnected = true)
    {e : SendQueueEntry} (hnew : e.l ∉ m.sent.map (·.2.l) ++ m.sendQueue.elements.map (·.l))
    (hcreated : e.l.object < m.objects) : (m.send e).Sound := by
  have hunsent : ∀ s', ¬m.SentOver s' e.l := by
    intro s' hs'
    obtain ⟨x, hx, heq⟩ := List.mem_map.mp hs'
    exact hnew (List.mem_append_left _ (List.mem_map.mpr ⟨x, hx, (Prod.mk.inj heq).2⟩))
  rw [m.send_connected hws hconnected]
  refine ⟨⟨h.once, ?_⟩, ⟨h.created.listeners, ?_, h.created.given, ?_, h.created.queued⟩,
    h.listeners, h.unanswered, ?_, ?_⟩
  · have hflushed : (List.map Prod.snd (m.sent ++ [(s, e)])).filter (· ∈ m.queued) = m.flushed := by
      rw [List.map_append, List.filter_append, List.map_singleton,
        List.filter_singleton, decide_eq_false (h.not_mem_queued hnew)]
      exact List.append_nil _
    exact (congrArg (· ++ m.sendQueue.elements) hflushed).trans h.inOrder
  · intro k s' hk
    dsimp only at hk
    split at hk
    · rename_i heq
      rw [heq]
      exact hcreated
    · exact h.created.sockets k s' hk
  · intro x hx
    rcases List.mem_append.mp hx with hx | hx
    · exact h.created.sent x hx
    · rw [List.mem_singleton.mp hx]
      exact hcreated
  · rw [List.map_append, List.append_assoc]
    exact List.nodup_middle.mpr (List.nodup_cons.mpr ⟨hnew, h.messages⟩)
  · intro k hk s'
    have hsent : SentOver { m with sent := m.sent ++ [(s, e)] } s' k ↔
        m.SentOver s' k ∨ s' = s ∧ k = e.l := by
      simp only [SentOver, List.map_append, List.map_singleton, List.mem_append,
        List.mem_singleton, Prod.mk.injEq]
    refine Iff.trans ?_ hsent.symm
    dsimp only
    by_cases heq : k = e.l
    · subst heq
      rw [if_pos rfl]
      exact ⟨fun hs => Or.inr ⟨(Option.some.inj hs).symm, rfl⟩,
        fun hs => (hs.resolve_left (hunsent s')).1 ▸ rfl⟩
    · rw [if_neg heq, h.sockets k hk s']
      exact ⟨Or.inl, fun hs => hs.resolve_right fun hs => heq hs.2⟩

/-- A message is queued. -/
theorem Sound.queue (h : m.Sound) {e : SendQueueEntry}
    (hnew : e.l ∉ m.sent.map (·.2.l) ++ m.sendQueue.elements.map (·.l))
    (hcreated : e.l.object < m.objects) :
    Sound { m with queued := m.queued ++ [e], sendQueue := m.sendQueue.add e } := by
  refine ⟨⟨h.once, ?_⟩, ⟨h.created.listeners, h.created.sockets, h.created.given, h.created.sent,
    ?_⟩, h.listeners, h.unanswered, ?_, h.sockets⟩
  · have hunsent : ∀ e' ∈ m.sent.map Prod.snd, e' ≠ e := by
      rintro e' he' rfl
      obtain ⟨x, hx, rfl⟩ := List.mem_map.mp he'
      exact hnew (List.mem_append_left _ (List.mem_map.mpr ⟨x, hx, rfl⟩))
    have hflushed : (m.sent.map Prod.snd).filter (· ∈ m.queued ++ [e]) = m.flushed := by
      refine List.filter_congr fun e' he' => decide_eq_decide.mpr ?_
      rw [List.mem_append, List.mem_singleton]
      exact ⟨fun h => h.resolve_right (hunsent e' he'), Or.inl⟩
    calc (m.sent.map Prod.snd).filter (· ∈ m.queued ++ [e]) ++ (m.sendQueue.elements ++ [e])
        = m.flushed ++ m.sendQueue.elements ++ [e] := by rw [hflushed, List.append_assoc]
      _ = m.queued ++ [e] := by rw [h.inOrder]
  · intro e' he'
    rcases List.mem_append.mp he' with he' | he'
    · exact h.created.queued e' he'
    · rw [List.mem_singleton.mp he']
      exact hcreated
  · rw [ArrayList.elements_add, List.map_append, List.map_singleton, ← List.append_assoc]
    refine List.nodup_middle.mpr (List.nodup_cons.mpr ⟨?_, ?_⟩) <;> rw [List.append_nil]
    · exact hnew
    · exact h.messages

theorem Sound.call (h : m.Sound) (request : Bytes) (responseType : MsgContent) (responseId : ℤ) :
    (m.call request responseType responseId).Sound := by
  let l : ResponseListener := ⟨m.objects, responseId, responseType⟩
  let m' : Server := { m with objects := m.objects + 1, listeners := m.listeners.add l }
  have hm' : m'.Sound := h.register rfl
  have hnew : l ∉ m.sent.map (·.2.l) ++ m.sendQueue.elements.map (·.l) := by
    intro hl
    rcases List.mem_append.mp hl with hl | hl
    · obtain ⟨x, hx, heq⟩ := List.mem_map.mp hl
      have hobject := h.created.sent x hx
      rw [heq] at hobject
      exact absurd hobject (Nat.lt_irrefl _)
    · obtain ⟨e, he, heq⟩ := List.mem_map.mp hl
      have hobject := h.created.queued e (h.queued_of_waiting he)
      rw [heq] at hobject
      exact absurd hobject (Nat.lt_irrefl _)
  have hcreated : l.object < m'.objects := Nat.lt_succ_self _
  cases hconnected : m.isConnected with
  | true =>
    obtain ⟨s, hws⟩ := m.exists_ws_of_isConnected hconnected
    have heq : m.call request responseType responseId = m'.send ⟨request, l⟩ := by
      simp only [Server.call, hconnected, if_true]
      rfl
    rw [heq]
    exact hm'.send hws hconnected hnew hcreated
  | false =>
    let m'' : Server := { m' with queued := m'.queued ++ [⟨request, l⟩] }
    have heq : m.call request responseType responseId = m''.send ⟨request, l⟩ := by
      simp only [Server.call, hconnected]
      rfl
    rw [heq, m''.send_disconnected hconnected]
    exact (hm'.queue hnew hcreated).environment m.url m.ws m.sockets (m.scheduled + 1)
      m.unsubscribed

/-- The queue is sent when there is a connection. -/
theorem Sound.onConnected (h : m.Sound)
    (hsafe : m.isConnected = true ∨ m.sendQueue.elements = []) : m.onConnected.Sound := by
  rcases hsafe with hconnected | hnil
  · obtain ⟨s, hws⟩ := m.exists_ws_of_isConnected hconnected
    have hunsent : ∀ l ∈ m.sendQueue.elements.map (·.l), ∀ s', ¬m.SentOver s' l := by
      intro l hl s' hs'
      obtain ⟨x, hx, heq⟩ := List.mem_map.mp hs'
      have hsent : l ∈ m.sent.map (·.2.l) := List.mem_map.mpr ⟨x, hx, (Prod.mk.inj heq).2⟩
      exact List.disjoint_of_nodup_append h.messages hsent hl
    rw [m.onConnected_connected hws hconnected]
    refine ⟨⟨h.once, ?_⟩, ⟨h.created.listeners, ?_, h.created.given, ?_, h.created.queued⟩,
      h.listeners, h.unanswered, ?_, ?_⟩
    · have hall : m.sendQueue.elements.filter (· ∈ m.queued) = m.sendQueue.elements :=
        List.filter_eq_self.mpr fun e he => decide_eq_true (h.queued_of_waiting he)
      have hentries : (m.sendQueue.elements.map ((s, ·) : SendQueueEntry → ℕ × SendQueueEntry)).map
          Prod.snd = m.sendQueue.elements := by
        rw [List.map_map]
        exact List.map_id _
      rw [flushed, ArrayList.elements_clear, List.append_nil]
      dsimp only
      rw [List.map_append, hentries, List.filter_append, hall]
      exact h.inOrder
    · intro k s' hk
      dsimp only at hk
      split at hk
      · rename_i hmem
        obtain ⟨e, he, rfl⟩ := List.mem_map.mp hmem
        exact h.created.queued e (h.queued_of_waiting he)
      · exact h.created.sockets k s' hk
    · intro x hx
      rcases List.mem_append.mp hx with hx | hx
      · exact h.created.sent x hx
      · obtain ⟨e, he, rfl⟩ := List.mem_map.mp hx
        exact h.created.queued e (h.queued_of_waiting he)
    · rw [ArrayList.elements_clear, List.map_append, List.map_nil, List.append_nil, List.map_map]
      exact h.messages
    · intro k hk s'
      have hsent : SentOver { m with sent := m.sent ++ m.sendQueue.elements.map (s, ·) } s' k ↔
          m.SentOver s' k ∨ s' = s ∧ k ∈ m.sendQueue.elements.map (·.l) := by
        simp only [SentOver, List.map_append, List.mem_append, List.mem_map, List.map_map,
          Function.comp, Prod.mk.injEq]
        refine or_congr_right ⟨?_, ?_⟩
        · rintro ⟨e, he, rfl, rfl⟩
          exact ⟨rfl, e, he, rfl⟩
        · rintro ⟨rfl, e, he, rfl⟩
          exact ⟨e, he, rfl, rfl⟩
      refine Iff.trans ?_ hsent.symm
      dsimp only
      by_cases hmem : k ∈ m.sendQueue.elements.map (·.l)
      · rw [if_pos hmem]
        exact ⟨fun hs => Or.inr ⟨(Option.some.inj hs).symm, hmem⟩,
          fun hs => (hs.resolve_left (hunsent k hmem s')).1 ▸ rfl⟩
      · rw [if_neg hmem, h.sockets k hk s']
        exact ⟨Or.inl, fun hs => hs.resolve_right fun hs => hmem hs.2⟩
  · have hwaiting : m.sendQueue.clear.elements = m.sendQueue.elements := hnil.symm
    rw [m.onConnected_nil hnil]
    refine ⟨⟨h.once, ?_⟩, ⟨h.created.listeners, h.created.sockets, h.created.given,
      h.created.sent, h.created.queued⟩, h.listeners, h.unanswered, ?_, h.sockets⟩
    · exact (congrArg (m.flushed ++ ·) hwaiting).trans h.inOrder
    · dsimp only
      rw [hwaiting]
      exact h.messages

theorem Sound.tryConnect (h : m.Sound) (uri : Option String) : (m.tryConnect uri).Sound := by
  obtain ⟨ws, sockets, heq⟩ := m.connect_eq uri
  rw [Server.tryConnect]
  dsimp only
  rw [heq]
  split
  · exact h.environment m.url ws sockets m.scheduled m.unsubscribed
  · exact h.environment m.url ws sockets (m.scheduled + 1) m.unsubscribed

theorem Sound.step (h : m.Sound) {e : ServerEvent} (hsafe : m.Safe e) : (m.step e).Sound := by
  cases e with
  | call request responseType responseId => exact h.call request responseType responseId
  | unsubscribe l => exact h.environment m.url m.ws m.sockets m.scheduled (l :: m.unsubscribed)
  | connect uri =>
    obtain ⟨ws, sockets, heq⟩ := m.connect_eq uri
    rw [Server.step, heq]
    exact h.environment m.url ws sockets m.scheduled m.unsubscribed
  | setUrl url uri =>
    obtain ⟨sockets, heq⟩ := disconnect_eq { m with url }
    rw [Server.step, setUrl]
    split
    · rw [heq]
      exact (h.environment url m.ws sockets m.scheduled m.unsubscribed).tryConnect uri
    · exact h
  | tryConnect uri =>
    exact (h.environment m.url m.ws m.sockets (m.scheduled - 1) m.unsubscribed).tryConnect uri
  | stateChanged s state =>
    exact h.environment m.url m.ws _ m.scheduled m.unsubscribed
  | connected s => exact h.onConnected hsafe
  | connectError s => exact h.environment m.url m.ws m.sockets (m.scheduled + 1) m.unsubscribed
  | disconnected s => exact h.onDisconnected
  | binaryMessage s msg => exact Sound.onMessages msg _ h h.listeners fun _ hl => hl

theorem sound_init (url : String) : Sound { url } where
  once := List.nodup_nil
  inOrder := rfl
  created := ⟨fun _ hl => absurd hl List.not_mem_nil, fun _ _ hs => (by cases hs),
    fun _ hl => absurd hl List.not_mem_nil, fun _ hx => absurd hx List.not_mem_nil,
    fun _ he => absurd he List.not_mem_nil⟩
  listeners := List.nodup_nil
  unanswered _ hl := absurd hl List.not_mem_nil
  messages := List.nodup_nil
  sockets _ hl := absurd hl List.not_mem_nil

/-! ### Disconnect events -/

/-- A disconnect event that fails nothing. -/
theorem handled_of_nil (h : m.Sound) {s : ℕ} (hs : m.openOver (some s) = [])
    (hws : m.openOver m.ws = []) : m.Handled (.disconnected s) := by
  have hnone : m.listeners.elements.filter (m.SentOver s ·) = [] := (h.openOver_eq s).symm.trans hs
  rw [Handled, onDisconnected_nil m hws, hnone]
  refine ⟨(List.filter_eq_self.mpr fun l hl => ?_).symm, (List.append_nil _).symm, rfl, rfl,
    fun _ _ => rfl⟩
  have hl := List.filter_eq_nil_iff.mp hnone l hl
  exact decide_eq_true fun hsent => hl (decide_eq_true hsent)

/-- A disconnect event that fails the one request of its socket. -/
theorem handled_of_singleton (h : m.Sound) {s : ℕ} {l : ResponseListener}
    (hs : m.openOver (some s) = [l]) (hws : m.ws = some s) : m.Handled (.disconnected s) := by
  have hone : m.listeners.elements.filter (m.SentOver s ·) = [l] := (h.openOver_eq s).symm.trans hs
  have hsent : ∀ k ∈ m.listeners.elements, m.SentOver s k ↔ k = l := by
    intro k hk
    have hmem : k ∈ m.listeners.elements.filter (m.SentOver s ·) ↔ k = l := by
      rw [hone, List.mem_singleton]
    rw [← hmem, List.mem_filter]
    exact ⟨fun hsent => ⟨hk, decide_eq_true hsent⟩, fun hsent => of_decide_eq_true hsent.2⟩
  obtain ⟨scheduled, heq⟩ := onDisconnected_cons m (hws ▸ hs)
  have hlisteners : (m.listeners.remove l).elements =
      m.listeners.elements.filter (¬m.SentOver s ·) := by
    rw [ArrayList.elements_remove, h.listeners.erase_eq_filter]
    refine List.filter_congr fun k hk => ?_
    rw [decide_not, decide_eq_decide.mpr (hsent k hk)]
    rfl
  rw [Handled, heq, hone]
  refine ⟨hlisteners, rfl, rfl, rfl, fun k hk => ?_⟩
  have hne : k ≠ l := by
    rintro rfl
    have hk' : k ∈ (m.listeners.remove k).elements := hk
    rw [ArrayList.elements_remove] at hk'
    exact h.listeners.not_mem_erase hk'
  exact if_neg hne

/-- With a safe event everything is handled. -/
theorem Sound.handled (h : m.Sound) {e : ServerEvent} (hsafe : m.Safe e) : m.Handled e := by
  cases e with
  | disconnected s =>
    rw [Safe] at hsafe
    split at hsafe
    · rename_i hws
      cases hopen : m.openOver (some s) with
      | nil => exact handled_of_nil h hopen (hws ▸ hopen)
      | cons l ls =>
        rw [hopen] at hsafe
        obtain rfl : ls = [] := List.eq_nil_of_length_eq_zero (by simpa using hsafe)
        exact handled_of_singleton h hopen hws
    · exact handled_of_nil h hsafe.1 hsafe.2
  | connected s =>
    intro hconnected
    obtain ⟨s', hws⟩ := m.exists_ws_of_isConnected hconnected
    rw [m.onConnected_connected hws hconnected]
    exact ⟨rfl, s', hws, rfl⟩
  | _ => trivial

/-- An event after which everything is accounted for and handled is a safe one. -/
theorem Sound.safe (h : m.Sound) {e : ServerEvent} (haccounted : (m.step e).Accounted)
    (hhandled : m.Handled e) : m.Safe e := by
  cases e with
  | disconnected s =>
    obtain ⟨-, hgiven, -⟩ := hhandled
    rw [← h.openOver_eq s] at hgiven
    rw [Safe]
    cases hopen : m.openOver m.ws with
    | nil =>
      rw [onDisconnected_nil m hopen] at hgiven
      have hnone : m.openOver (some s) = [] :=
        List.map_eq_nil_iff.mp
          (List.append_cancel_left (hgiven.symm.trans (List.append_nil _).symm))
      rw [hnone]
      split
      · exact Nat.zero_le 1
      · exact ⟨rfl, rfl⟩
    | cons l ls =>
      obtain ⟨scheduled, heq⟩ := onDisconnected_cons m hopen
      rw [heq] at hgiven
      have hone : [(l, Notification.disconnected)] =
          (m.openOver (some s)).map (·, Notification.disconnected) :=
        List.append_cancel_left hgiven
      obtain ⟨l', hl', heq'⟩ := List.map_eq_singleton_iff.mp hone.symm
      obtain rfl : l' = l := (Prod.mk.inj heq').1
      have hcurrent : m.ws = some s := by
        have hws : l' ∈ m.openOver m.ws := hopen ▸ List.mem_cons_self ..
        have hs : l' ∈ m.openOver (some s) := hl' ▸ List.mem_singleton_self _
        exact (of_decide_eq_true (List.mem_filter.mp hws).2).symm.trans
          (of_decide_eq_true (List.mem_filter.mp hs).2)
      rw [if_pos hcurrent, hl']
      exact Nat.le_refl 1
  | connected s =>
    rw [Safe]
    cases hconnected : m.isConnected with
    | true => exact Or.inl rfl
    | false =>
      cases hqueue : m.sendQueue.elements with
      | nil => exact Or.inr rfl
      | cons e es =>
        -- the first message comes into the queue once more
        have hinOrder := haccounted.inOrder
        rw [Server.step, m.onConnected_cons hqueue hconnected, m.send_disconnected hconnected]
          at hinOrder
        have htwice : m.flushed ++ (m.sendQueue.elements ++ [e]) =
            m.flushed ++ m.sendQueue.elements := hinOrder.trans h.inOrder.symm
        have hlength := congrArg List.length (List.append_cancel_left htwice)
        simp at hlength
  | _ => trivial

end Server

/-- Always all requests are accounted for, and all events handled, exactly when every connection
    event finds the current socket open or nothing to send, and every disconnect event is one of the
    current socket with at most one open request, or meets no open request of both. -/
theorem accounted_iff {url : String} {es : List ServerEvent} (hrun : Feasible server { url } es) :
    Always server Server.Accounted { url } es ∧ Each server Server.Handled { url } es ↔
      Each server Server.Safe { url } es :=
  always_and_each_iff (fun _ _ h _ hsafe => Server.Sound.step h hsafe)
    (fun _ h => h.toAccounted) (fun _ _ h _ hsafe => Server.Sound.handled h hsafe)
    (fun _ _ h _ haccounted hhandled => Server.Sound.safe h haccounted hhandled)
    (Server.sound_init url) hrun

/-! ### Two requests of one socket -/

/-- A request for stations. -/
def guessRequest : ServerEvent := .call [1] 24 1

/-- A request for connections. -/
def routeRequest : ServerEvent := .call [2] 85 2

/-- The first socket connects. -/
def connecting : List ServerEvent :=
  [.connect (some "wss://10.0.2.2:8082"), .stateChanged 0 .connecting, .stateChanged 0 .open,
    .connected 0]

def disconnecting : List ServerEvent :=
  [.stateChanged 0 .closing, .stateChanged 0 .closed, .disconnected 0]

theorem accounted_iff_oneRequest :
    Always server Server.Accounted { url := "wss://10.0.2.2:8082" }
        (guessRequest :: connecting ++ disconnecting) ∧
      Each server Server.Handled { url := "wss://10.0.2.2:8082" }
        (guessRequest :: connecting ++ disconnecting) ↔
    Each server Server.Safe { url := "wss://10.0.2.2:8082" }
      (guessRequest :: connecting ++ disconnecting) :=
  accounted_iff ⟨trivial, trivial, by decide, by decide, by decide, by decide, by decide,
    by decide, trivial⟩

/-- The second request of the socket is not failed when it disconnects. -/
theorem not_handled_twoRequests : ¬∀ (url : String) (es : List ServerEvent),
    Feasible server { url } es →
      Always server Server.Accounted { url } es ∧ Each server Server.Handled { url } es := by
  intro h
  let es := guessRequest :: routeRequest :: connecting ++ disconnecting
  have hrun : Feasible server { url := "wss://10.0.2.2:8082" } es :=
    ⟨trivial, trivial, trivial, by decide, by decide, by decide, by decide, by decide, by decide,
      trivial⟩
  obtain ⟨-, -, -, -, -, -, -, -, -, ⟨-, hgiven, -⟩, -⟩ := h "wss://10.0.2.2:8082" es hrun
  have hlength := congrArg List.length hgiven
  revert hlength
  decide

end Motis.Android
