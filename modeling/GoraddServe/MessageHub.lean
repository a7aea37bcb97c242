import GoraddServe.BufferedChannels
import GoraddServe.GoMaps
import Mathlib.Logic.Function.Basic

/-!
# The websocket hub and the relation it indexes

The hub keeps one relation, which client ID listens to which channel, in two maps:
`channels` of the hub and `channels` of each client. Clients are reached through
pointers, so that two connections with one client ID stay two objects.
-/
namespace GoraddServe.MessageHub
open BufferedChannels GoMaps

/-- The information that is passed to the client for each message. -/
structure ClientMessage where
  channel : String
  message : String
  deriving DecidableEq, Repr

structure Subscription where
  clientID : String
  channel : String
  deriving DecidableEq, Repr

/-- A `*Client`. -/
abbrev ClientPtr := ℕ

/-- The capacity `serveWs` gives to the queue of a client. -/
abbrev sendCapacity : ℕ := 256

/-- `map[string]bool` is used as a set: no value but `true` is ever stored in it. -/
structure Client where
  clientID : String
  channels : Finset String
  send : Channel ClientMessage sendCapacity

structure WebSocketHub where
  channels : GoMap String (Finset String)
  clients : GoMap String ClientPtr
  client : ClientPtr → Client

namespace WebSocketHub

variable (h : WebSocketHub)

/-- A write through the pointer `p`. -/
def setClient (p : ClientPtr) (c : Client) : WebSocketHub :=
  { h with client := Function.update h.client p c }

/-- A channel operation on `client.send`. -/
def setQueue (p : ClientPtr) (queue : Channel ClientMessage sendCapacity) : WebSocketHub :=
  h.setClient p { h.client p with send := queue }

def subscribeChannel (clientID channel : String) : WebSocketHub :=
  match h.clients.get clientID with
  | none => h
  | some p =>
    let client := h.client p
    let h := h.setClient p { client with channels := insert channel client.channels }
    { h with channels := addTo h.channels channel clientID }

def unsubscribeChannel (clientID channel : String) : WebSocketHub :=
  let h := { h with channels := removeFrom h.channels channel clientID }
  match h.clients.get clientID with
  | none => h
  | some p =>
    let client := h.client p
    h.setClient p { client with channels := client.channels.erase channel }

/-- The loop of `unregisterClient`. Its body deletes the entry it is at and no other, so it
visits every channel that `client.channels` held at its start, in the order `order`. -/
def unsubscribeAll (clientID : String) (order : List String) : WebSocketHub :=
  order.foldl (fun h channel => h.unsubscribeChannel clientID channel) h

def unregisterClient (clientID : String) (order : List String) : WebSocketHub :=
  match h.clients.get clientID with
  | none => h
  | some _ =>
    let h := h.unsubscribeAll clientID order
    { h with clients := h.clients.delete clientID }

/-- The `register` case of `run`. -/
def register (p : ClientPtr) (order : List String) : WebSocketHub :=
  let clientID := (h.client p).clientID
  let h := match h.clients.get clientID with
    | some _ => h.unregisterClient clientID order
    | none => h
  { h with clients := h.clients.set clientID p }

/-- What `unregisterClient` ranges over. -/
def channelsOf (clientID : String) : Finset String :=
  match h.clients.get clientID with
  | none => ∅
  | some p => (h.client p).channels

variable {h : WebSocketHub} {clientID channel : String} {p q : ClientPtr} {order : List String}

@[simp] theorem setClient_clients (c : Client) : (h.setClient p c).clients = h.clients := rfl

@[simp] theorem setClient_channels (c : Client) : (h.setClient p c).channels = h.channels := rfl

theorem setClient_client (c : Client) :
    (h.setClient p c).client q = if q = p then c else h.client q := Function.update_apply ..

section setQueue

variable (queue : Channel ClientMessage sendCapacity)

@[simp] theorem setQueue_clients : (h.setQueue p queue).clients = h.clients := rfl

theorem setQueue_client : (h.setQueue p queue).client q =
    { h.client q with send := if q = p then queue else (h.client q).send } := by
  rw [setQueue, setClient_client]
  split
  · rename_i hq
    rw [hq]
  · rfl

@[simp] theorem setQueue_clientID :
    ((h.setQueue p queue).client q).clientID = (h.client q).clientID := by rw [setQueue_client]

@[simp] theorem setQueue_client_channels :
    ((h.setQueue p queue).client q).channels = (h.client q).channels := by rw [setQueue_client]

theorem setQueue_send :
    ((h.setQueue p queue).client q).send = if q = p then queue else (h.client q).send := by
  rw [setQueue_client]

end setQueue

@[simp] theorem unsubscribeChannel_clients :
    (h.unsubscribeChannel clientID channel).clients = h.clients := by
  unfold unsubscribeChannel
  cases hp : h.clients.get clientID <;> simp [hp]

@[simp] theorem unsubscribeChannel_channels :
    (h.unsubscribeChannel clientID channel).channels = removeFrom h.channels channel clientID := by
  unfold unsubscribeChannel
  cases hp : h.clients.get clientID <;> simp [hp]

theorem unsubscribeChannel_client :
    (h.unsubscribeChannel clientID channel).client q =
      { h.client q with
        channels := if h.clients.get clientID = some q then (h.client q).channels.erase channel
          else (h.client q).channels } := by
  unfold unsubscribeChannel
  cases hp : h.clients.get clientID with
  | none => simp [hp]
  | some p =>
    by_cases hq : q = p
    · subst hq
      simp [hp, setClient_client]
    · have hne : p ≠ q := fun h => hq h.symm
      simp [hp, setClient_client, hq, hne]

theorem unsubscribeAll_cons :
    h.unsubscribeAll clientID (channel :: order) =
      (h.unsubscribeChannel clientID channel).unsubscribeAll clientID order := rfl

@[simp] theorem unsubscribeAll_clients :
    (h.unsubscribeAll clientID order).clients = h.clients := by
  induction order generalizing h with
  | nil => rfl
  | cons c order ih => rw [unsubscribeAll_cons, ih, unsubscribeChannel_clients]

theorem relates_unsubscribeAll {c i : String} :
    Relates (h.unsubscribeAll clientID order).channels c i ↔
      Relates h.channels c i ∧ ¬(c ∈ order ∧ i = clientID) := by
  induction order generalizing h with
  | nil => simp [unsubscribeAll]
  | cons d order ih =>
    rw [unsubscribeAll_cons, ih, unsubscribeChannel_channels, relates_removeFrom]
    simp only [List.mem_cons]
    tauto

theorem noEmptySet_unsubscribeAll (hne : NoEmptySet h.channels) :
    NoEmptySet (h.unsubscribeAll clientID order).channels := by
  induction order generalizing h with
  | nil => exact hne
  | cons c order ih =>
    rw [unsubscribeAll_cons]
    exact ih (by rw [unsubscribeChannel_channels]; exact hne.removeFrom c clientID)

theorem unsubscribeAll_client :
    (h.unsubscribeAll clientID order).client q =
      { h.client q with
        channels := if h.clients.get clientID = some q then (h.client q).channels \ order.toFinset
          else (h.client q).channels } := by
  induction order generalizing h with
  | nil => simp [unsubscribeAll]
  | cons c order ih =>
    rw [unsubscribeAll_cons, ih, unsubscribeChannel_client, unsubscribeChannel_clients]
    split
    · simp only [List.toFinset_cons, Client.mk.injEq, true_and, and_true]
      ext d
      simp only [Finset.mem_sdiff, Finset.mem_erase, Finset.mem_insert]
      tauto
    · rfl

theorem unregisterClient_clients (i : String) :
    (h.unregisterClient clientID order).clients.get i =
      if i = clientID then none else h.clients.get i := by
  unfold unregisterClient
  cases hp : h.clients.get clientID with
  | none =>
    by_cases hi : i = clientID
    · subst hi
      simp [hp]
    · simp [hi]
  | some p => simp [GoMap.get_delete]

theorem noEmptySet_unregisterClient (hne : NoEmptySet h.channels) :
    NoEmptySet (h.unregisterClient clientID order).channels := by
  unfold unregisterClient
  cases h.clients.get clientID with
  | none => exact hne
  | some p => exact noEmptySet_unsubscribeAll hne

theorem unregisterClient_frame :
    ((h.unregisterClient clientID order).client q).clientID = (h.client q).clientID ∧
      ((h.unregisterClient clientID order).client q).send = (h.client q).send := by
  unfold unregisterClient
  cases h.clients.get clientID with
  | none => exact ⟨rfl, rfl⟩
  | some p => simp [unsubscribeAll_client]

theorem unregisterClient_client (horder : Enumerates order (h.channelsOf clientID)) :
    (h.unregisterClient clientID order).client q =
      { h.client q with
        channels := if h.clients.get clientID = some q then ∅ else (h.client q).channels } := by
  unfold unregisterClient
  cases hp : h.clients.get clientID with
  | none => simp
  | some p =>
    simp only [unsubscribeAll_client, hp]
    split
    · rename_i hq
      obtain rfl : p = q := Option.some.inj hq
      have hall : order.toFinset = (h.client p).channels := by simpa [channelsOf, hp] using horder.2
      simp [hall]
    · rfl

theorem relates_unregisterClient {c i : String}
    (horder : Enumerates order (h.channelsOf clientID)) :
    Relates (h.unregisterClient clientID order).channels c i ↔
      Relates h.channels c i ∧ ¬(c ∈ h.channelsOf clientID ∧ i = clientID) := by
  unfold unregisterClient
  cases hp : h.clients.get clientID with
  | none => simp [channelsOf, hp]
  | some p => simp only [relates_unsubscribeAll, horder.mem_iff]

theorem register_eq :
    h.register p order =
      let h' := h.unregisterClient (h.client p).clientID order
      { h' with clients := h'.clients.set (h.client p).clientID p } := by
  unfold register unregisterClient
  cases hp : h.clients.get (h.client p).clientID <;> simp [hp]

theorem register_clients (i : String) :
    (h.register p order).clients.get i =
      if i = (h.client p).clientID then some p else h.clients.get i := by
  rw [register_eq, GoMap.get_set, unregisterClient_clients]
  split <;> rfl

theorem register_frame :
    ((h.register p order).client q).clientID = (h.client q).clientID ∧
      ((h.register p order).client q).send = (h.client q).send := by
  rw [register_eq]
  exact unregisterClient_frame

@[simp] theorem subscribeChannel_clients :
    (h.subscribeChannel clientID channel).clients = h.clients := by
  unfold subscribeChannel
  cases h.clients.get clientID <;> rfl

theorem subscribeChannel_client :
    (h.subscribeChannel clientID channel).client q =
      { h.client q with
        channels := if h.clients.get clientID = some q then insert channel (h.client q).channels
          else (h.client q).channels } := by
  unfold subscribeChannel
  cases hp : h.clients.get clientID with
  | none => simp
  | some p =>
    by_cases hq : q = p
    · subst hq
      simp [setClient_client]
    · have hne : p ≠ q := fun h => hq h.symm
      simp [setClient_client, hq, hne]

theorem relates_subscribeChannel {c i : String} :
    Relates (h.subscribeChannel clientID channel).channels c i ↔
      Relates h.channels c i ∨
        (∃ p, h.clients.get clientID = some p) ∧ c = channel ∧ i = clientID := by
  unfold subscribeChannel
  cases hp : h.clients.get clientID with
  | none => simp
  | some p => simp [relates_addTo]

theorem noEmptySet_subscribeChannel (hne : NoEmptySet h.channels) :
    NoEmptySet (h.subscribeChannel clientID channel).channels := by
  unfold subscribeChannel
  cases h.clients.get clientID with
  | none => exact hne
  | some p => exact hne.addTo channel clientID

end WebSocketHub

end GoraddServe.MessageHub
