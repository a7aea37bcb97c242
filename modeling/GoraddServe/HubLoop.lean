import GoraddServe.LabelledRuns
import GoraddServe.MessageHub

/-!
# The loop of the hub

`run` waits at its `select` for an event. Three of its cases end at once. The `send` case
delivers one message to one client after another and may block at each of them, so it is
split at its channel operations: between two of them the queues of the clients go on being
drained. Events arrive here from anyone and in any order.
-/
namespace GoraddServe.HubLoop
open BufferedChannels GoMaps MessageHub LabelledRuns

/-- Where the goroutine of `run` stands. -/
inductive Phase where
  | select
  /-- in `for clientID := range clientIDs`, with these keys still to come -/
  | ranging (msg : ClientMessage) (rest : Finset String)
  /-- at `client.send <- msg` -/
  | sending (msg : ClientMessage) (client : ClientPtr) (rest : Finset String)
  deriving DecidableEq

structure HubState where
  hub : WebSocketHub
  phase : Phase

inductive Event where
  /-- `order` is the order of the range in `unregisterClient` -/
  | register (client : ClientPtr) (order : List String)
  | unregister (client : ClientPtr) (order : List String)
  | send (msg : ClientMessage)
  | subscribe (sub : Subscription)
  /-- the range over `clientIDs` goes on to this key -/
  | visit (clientID : String)
  /-- `client.send <- msg` goes through -/
  | deliver
  /-- the range over `clientIDs` ends -/
  | leave
  /-- the `writePump` of the client takes a message from its queue -/
  | drain (client : ClientPtr)

def step : HubState → Event → Option HubState
  | ⟨h, .select⟩, .register p order =>
    if Enumerates order (h.channelsOf (h.client p).clientID) then some ⟨h.register p order, .select⟩
    else none
  | ⟨h, .select⟩, .unregister p order =>
    if Enumerates order (h.channelsOf (h.client p).clientID) then
      some ⟨h.unregisterClient (h.client p).clientID order, .select⟩
    else none
  | ⟨h, .select⟩, .send msg =>
    match h.channels.get msg.channel with
    | some clientIDs => some ⟨h, .ranging msg clientIDs⟩
    | none => some ⟨h, .select⟩
  | ⟨h, .select⟩, .subscribe sub => some ⟨h.subscribeChannel sub.clientID sub.channel, .select⟩
  | ⟨h, .ranging msg rest⟩, .visit clientID =>
    if clientID ∈ rest then
      match h.clients.get clientID with
      | some p => some ⟨h, .sending msg p (rest.erase clientID)⟩
      | none => some ⟨h, .ranging msg (rest.erase clientID)⟩
    else none
  | ⟨h, .sending msg p rest⟩, .deliver =>
    ((h.client p).send.send msg).map fun queue => ⟨h.setQueue p queue, .ranging msg rest⟩
  | ⟨h, .ranging _ rest⟩, .leave => if rest = ∅ then some ⟨h, .select⟩ else none
  | ⟨h, phase⟩, .drain p =>
    (h.client p).send.receive.map fun r => ⟨h.setQueue p r.2, phase⟩
  | _, _ => none

/-- `NewWebSocketHub`, and the clients as `serveWs` will make them: the one at `p` with the
client ID `ids p`, an empty queue and an empty `channels` map. -/
def init (ids : ClientPtr → String) : HubState :=
  ⟨⟨∅, ∅, fun p => ⟨ids p, ∅, .make⟩⟩, .select⟩

variable {s t : HubState}

section Events

attribute [local simp] step

theorem step_register {p : ClientPtr} {order : List String} :
    step s (.register p order) = some t ↔
      s.phase = .select ∧ Enumerates order (s.hub.channelsOf (s.hub.client p).clientID) ∧
        t = ⟨s.hub.register p order, .select⟩ := by
  obtain ⟨h, phase⟩ := s
  cases phase <;> simp [eq_comm]

theorem step_unregister {p : ClientPtr} {order : List String} :
    step s (.unregister p order) = some t ↔
      s.phase = .select ∧ Enumerates order (s.hub.channelsOf (s.hub.client p).clientID) ∧
        t = ⟨s.hub.unregisterClient (s.hub.client p).clientID order, .select⟩ := by
  obtain ⟨h, phase⟩ := s
  cases phase <;> simp [eq_comm]

theorem step_subscribe {sub : Subscription} :
    step s (.subscribe sub) = some t ↔
      s.phase = .select ∧ t = ⟨s.hub.subscribeChannel sub.clientID sub.channel, .select⟩ := by
  obtain ⟨h, phase⟩ := s
  cases phase <;> simp [eq_comm]

theorem step_send {msg : ClientMessage} :
    step s (.send msg) = some t ↔
      s.phase = .select ∧ t.hub = s.hub ∧
        ((∃ clientIDs, s.hub.channels.get msg.channel = some clientIDs ∧
            t.phase = .ranging msg clientIDs) ∨
          (s.hub.channels.get msg.channel = none ∧ t.phase = .select)) := by
  obtain ⟨h, phase⟩ := s
  obtain ⟨h', phase'⟩ := t
  cases phase with
  | select =>
    cases hc : h.channels.get msg.channel <;>
      simp [hc, eq_comm (a := h'), eq_comm (a := phase')]
  | ranging => simp
  | sending => simp

theorem step_visit {i : String} :
    step s (.visit i) = some t ↔
      ∃ msg rest, s.phase = .ranging msg rest ∧ i ∈ rest ∧ t.hub = s.hub ∧
        ((∃ p, s.hub.clients.get i = some p ∧ t.phase = .sending msg p (rest.erase i)) ∨
          (s.hub.clients.get i = none ∧ t.phase = .ranging msg (rest.erase i))) := by
  obtain ⟨h, phase⟩ := s
  obtain ⟨h', phase'⟩ := t
  cases phase with
  | select => simp
  | ranging msg rest =>
    cases hc : h.clients.get i <;>
      simp [hc, eq_comm (a := h'), eq_comm (a := phase')]
  | sending => simp

theorem step_deliver :
    step s .deliver = some t ↔
      ∃ msg p rest, s.phase = .sending msg p rest ∧ ∃ queue : Channel ClientMessage sendCapacity,
        (s.hub.client p).send.len < sendCapacity ∧ queue.buf = (s.hub.client p).send.buf ++ [msg] ∧
          t = ⟨s.hub.setQueue p queue, .ranging msg rest⟩ := by
  obtain ⟨h, phase⟩ := s
  cases phase with
  | select => simp
  | ranging => simp
  | sending msg p rest => simp [Channel.send_eq_some, and_assoc, eq_comm (b := t)]

theorem step_leave :
    step s .leave = some t ↔ ∃ msg, s.phase = .ranging msg ∅ ∧ t = ⟨s.hub, .select⟩ := by
  obtain ⟨h, phase⟩ := s
  cases phase <;> simp [eq_comm]

theorem step_drain {p : ClientPtr} :
    step s (.drain p) = some t ↔
      ∃ (msg : ClientMessage) (queue : Channel ClientMessage sendCapacity),
        (s.hub.client p).send.buf = msg :: queue.buf ∧
          t = ⟨s.hub.setQueue p queue, s.phase⟩ := by
  obtain ⟨h, phase⟩ := s
  cases phase <;> simp [Channel.receive_eq_some, eq_comm (b := t)]

end Events

theorem step_clientID {e : Event} (h : step s e = some t) (q : ClientPtr) :
    (t.hub.client q).clientID = (s.hub.client q).clientID := by
  cases e with
  | register p order =>
    obtain ⟨-, -, rfl⟩ := step_register.mp h
    exact WebSocketHub.register_frame.1
  | unregister p order =>
    obtain ⟨-, -, rfl⟩ := step_unregister.mp h
    exact WebSocketHub.unregisterClient_frame.1
  | send msg => rw [(step_send.mp h).2.1]
  | subscribe sub =>
    obtain ⟨-, rfl⟩ := step_subscribe.mp h
    rw [WebSocketHub.subscribeChannel_client]
  | visit i =>
    obtain ⟨_, _, -, -, hhub, -⟩ := step_visit.mp h
    rw [hhub]
  | deliver =>
    obtain ⟨_, _, _, -, queue, -, -, rfl⟩ := step_deliver.mp h
    exact WebSocketHub.setQueue_clientID queue
  | leave =>
    obtain ⟨_, -, rfl⟩ := step_leave.mp h
    rfl
  | drain p =>
    obtain ⟨_, queue, -, rfl⟩ := step_drain.mp h
    exact WebSocketHub.setQueue_clientID queue

/-- Sending reads the registry and does not write to it. -/
theorem step_registry {e : Event} (h : step s e = some t)
    (hregister : ∀ p order, e ≠ .register p order)
    (hunregister : ∀ p order, e ≠ .unregister p order)
    (hsubscribe : ∀ sub, e ≠ .subscribe sub) :
    t.hub.clients = s.hub.clients ∧
      ∀ q, (t.hub.client q).channels = (s.hub.client q).channels := by
  cases e with
  | register p order => exact absurd rfl (hregister p order)
  | unregister p order => exact absurd rfl (hunregister p order)
  | subscribe sub => exact absurd rfl (hsubscribe sub)
  | send msg =>
    rw [(step_send.mp h).2.1]
    exact ⟨rfl, fun _ => rfl⟩
  | visit i =>
    obtain ⟨_, _, -, -, hhub, -⟩ := step_visit.mp h
    rw [hhub]
    exact ⟨rfl, fun _ => rfl⟩
  | deliver =>
    obtain ⟨_, _, _, -, queue, -, -, rfl⟩ := step_deliver.mp h
    exact ⟨rfl, fun _ => WebSocketHub.setQueue_client_channels queue⟩
  | leave =>
    obtain ⟨_, -, rfl⟩ := step_leave.mp h
    exact ⟨rfl, fun _ => rfl⟩
  | drain p =>
    obtain ⟨_, queue, -, rfl⟩ := step_drain.mp h
    exact ⟨rfl, fun _ => WebSocketHub.setQueue_client_channels queue⟩

end GoraddServe.HubLoop
