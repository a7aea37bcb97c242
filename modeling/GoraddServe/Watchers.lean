import GoraddServe.HubDelivery
import GoraddServe.WatchKeys

/-!
# Watchers of records and tables

A change of a record is broadcast as messages on channels, which the messenger passes to the hub.
The clients that listen to a channel hear of the change if a message is sent on it. An update is
sent on the channel of the table and on that of the record, every other change on that of the
table alone.
-/
namespace GoraddServe.Watchers
open GoMaps Panics ResponseWriters MessageHub LabelledRuns HubLoop HubIndex HubDelivery WatchKeys

variable {α : Type}

/-- `m.hub` is not nil after `Start`. -/
structure WsMessenger where
  started : Bool

/-- `Messenger` is nil or a `WsMessenger`, whose hub has taken the messages `sent` from here. -/
structure Messaging where
  Messenger : Option WsMessenger
  sent : List ClientMessage
  logger : Option (List LogRecord)

abbrev MessengerM := GoM PanicValue Messaging

/-- What is given to `messenger.Send`: a text, or the map that `BroadcastUpdate` makes. -/
inductive Message (α : Type) where
  | text (s : String)
  | update (pk : PrimaryKey α) (fieldKeys : Option (List String))

section Send

variable (rt : Runtime α)

/-- `json.Marshal(fieldKeys)` -/
def marshalFields : Option (List String) → String
  | none => "null"
  | some fieldKeys => "[" ++ ",".intercalate (fieldKeys.map rt.quote) ++ "]"

/-- `json.Marshal(message)`, which writes the keys of a map in their order. -/
def Message.marshal : Message α → Except String String
  | .text s => .ok (rt.quote s)
  | .update pk fieldKeys => do
    let pk ← pk.marshal rt
    return "\x7b\"fields\":" ++ marshalFields rt fieldKeys ++ ",\"op\":" ++ rt.quote "upd" ++
      ",\"pk\":" ++ pk ++ "\x7d"

/-- `log.Warn(ctx, "messenger", msg, args...)` -/
def logWarn (msg : String) (args : List LogValue) : MessengerM Unit := do
  match (← get).logger with
  | none => throw nilDereference
  | some records =>
    modify fun s => { s with logger := some (records ++ [logRecord "messenger" msg args]) }

/-- `m.Send(channel, message)`, which waits for the hub to take the message. -/
def WsMessenger.send (m : WsMessenger) (channel message : String) : MessengerM Unit :=
  if m.started then modify fun s => { s with sent := s.sent ++ [⟨channel, message⟩] } else pure ()

def send (channel : String) (message : Message α) : MessengerM Unit := do
  match message.marshal rt with
  | .error err => logWarn "JSON error marshalling message" [.attr "error" (.text err)]
  | .ok msg =>
    match (← get).Messenger with
    | none => return
    | some m => m.send channel msg

def broadcastUpdate (dbKey table : String) (pk : PrimaryKey α)
    (fieldKeys : Option (List String)) : MessengerM Unit := do
  let tableChannel := makeKey rt dbKey table (.string "")
  let pkChannel := makeKey rt dbKey table pk
  send rt tableChannel (.text "*")
  send rt pkChannel (.update pk fieldKeys)

/-- The message with the key of the record, which this broadcast and the next two make as well, is
not sent. -/
def broadcastInsert (dbKey table : String) (_ : PrimaryKey α) : MessengerM Unit := do
  let tableChannel := makeKey rt dbKey table (.string "")
  send rt tableChannel (.text "*")

def broadcastDelete (dbKey table : String) (_ : PrimaryKey α) : MessengerM Unit := do
  let tableChannel := makeKey rt dbKey table (.string "")
  send rt tableChannel (.text "*")

def broadcastBulkChange (dbKey table : String) : MessengerM Unit := do
  let tableChannel := makeKey rt dbKey table (.string "")
  send rt tableChannel (.text "*")

end Send

/-- A change of a record that is there. -/
inductive Change where
  | update (fieldKeys : Option (List String))
  | delete

def Change.broadcast (rt : Runtime α) (dbKey table : String) (pk : PrimaryKey α) :
    Change → MessengerM Unit
  | update fieldKeys => broadcastUpdate rt dbKey table pk fieldKeys
  | delete => broadcastDelete rt dbKey table pk

def passed (broadcast : MessengerM Unit) (s : Messaging) : List ClientMessage :=
  (outcome broadcast s).2.sent.drop s.sent.length

section Passed

variable {rt : Runtime α} {s : Messaging} {channel dbKey table : String} {message : Message α}
  {pk : PrimaryKey α} {fieldKeys : Option (List String)}

theorem outcome_send_ok {msg : String} (hstarted : s.Messenger = some ⟨true⟩)
    (hmarshal : message.marshal rt = .ok msg) : outcome (send rt channel message) s =
      (.ok ⟨⟩, { s with sent := s.sent ++ [⟨channel, msg⟩] }) := by
  obtain ⟨messenger, sent, logger⟩ := s
  obtain rfl : messenger = some ⟨true⟩ := hstarted
  rw [send, hmarshal]
  rfl

theorem sent_send_error {err : String} (hmarshal : message.marshal rt = .error err) :
    (outcome (send rt channel message) s).2.sent = s.sent := by
  rw [send, hmarshal]
  dsimp only
  rw [logWarn, outcome_bind_ok outcome_get]
  cases s.logger with
  | none => rfl
  | some records => rfl

/-- No hub takes a message before the messenger is started. -/
theorem sent_send_idle (hidle : s.Messenger ≠ some ⟨true⟩) :
    (outcome (send rt channel message) s).2.sent = s.sent ∧
      (outcome (send rt channel message) s).2.Messenger = s.Messenger := by
  rw [send]
  cases message.marshal rt with
  | error err =>
    dsimp only
    rw [logWarn, outcome_bind_ok outcome_get]
    cases s.logger with
    | none => exact ⟨rfl, rfl⟩
    | some records => exact ⟨rfl, rfl⟩
  | ok msg =>
    dsimp only
    rw [outcome_bind_ok outcome_get]
    cases hmessenger : s.Messenger with
    | none => exact ⟨rfl, hmessenger⟩
    | some m =>
      obtain ⟨started⟩ := m
      cases started with
      | true => exact absurd hmessenger hidle
      | false => exact ⟨rfl, hmessenger⟩

theorem passed_idle (hidle : s.Messenger ≠ some ⟨true⟩) (change : Change) :
    passed (change.broadcast rt dbKey table pk) s = [] := by
  rw [passed, List.drop_eq_nil_iff]
  cases change with
  | delete =>
    rw [Change.broadcast, broadcastDelete, (sent_send_idle hidle).1]
  | update fieldKeys =>
    rw [Change.broadcast, broadcastUpdate, outcome_bind]
    have hfirst := @sent_send_idle _ rt s (makeKey rt dbKey table (.string "")) (.text "*") hidle
    generalize outcome (send rt (makeKey rt dbKey table (.string "")) (.text "*")) s = result
      at hfirst
    obtain ⟨value, t⟩ := result
    obtain ⟨hsent, hmessenger⟩ := hfirst
    cases value with
    | error p => rw [hsent]
    | ok => rw [(sent_send_idle (hmessenger.trans_ne hidle)).1, hsent]

theorem passed_delete (hstarted : s.Messenger = some ⟨true⟩) :
    passed (broadcastDelete rt dbKey table pk) s =
      [⟨makeKey rt dbKey table (.string ""), rt.quote "*"⟩] := by
  rw [passed, broadcastDelete, outcome_send_ok hstarted rfl]
  exact List.drop_left

theorem passed_update (hstarted : s.Messenger = some ⟨true⟩) :
    passed (broadcastUpdate rt dbKey table pk fieldKeys) s =
      ⟨makeKey rt dbKey table (.string ""), rt.quote "*"⟩ ::
        match (Message.update pk fieldKeys).marshal rt with
        | .ok msg => [⟨makeKey rt dbKey table pk, msg⟩]
        | .error _ => [] := by
  rw [passed, broadcastUpdate, outcome_bind_ok (outcome_send_ok hstarted rfl)]
  cases hmarshal : (Message.update pk fieldKeys).marshal rt with
  | ok msg =>
    rw [outcome_send_ok (by exact hstarted) hmarshal]
    simp
  | error err =>
    rw [sent_send_error hmarshal]
    simp

theorem makeKey_ne_table (hpk : pk.isEmpty = false) :
    makeKey rt dbKey table (.string "") ≠ makeKey rt dbKey table pk := by
  rw [makeKey_table, makeKey_record rt dbKey table hpk]
  intro h
  have hlength := congrArg String.length h
  simp at hlength

end Passed

/-- A message is sent on each of the channels. -/
def ChannelsHear (channels : List String) (msgs : List ClientMessage) : Prop :=
  ∀ c ∈ channels, ∃ msg ∈ msgs, msg.channel = c

/-- Whatever else goes on while the hub takes the messages, it has put one on the channel into the
queue of each client that is registered and listens to the channel all the while. -/
def ClientsHear (channels : List String) (msgs : List ClientMessage) : Prop :=
  ∀ (ids : ClientPtr → String) (before after : List (HubState × Event)) (s t : HubState),
    Run step (init ids) before s → Run step s after t →
    (msgs.map Event.send).Sublist (after.map Prod.snd) → t.phase = .select →
    ∀ x, ∀ c ∈ channels, (∀ e ∈ after, Entitled e.1.hub x c) →
      ∃ msg ∈ delivered x after, msg.channel = c

section Hear

variable {channels : List String} {msgs : List ClientMessage}

theorem ChannelsHear.clients (h : ChannelsHear channels msgs) : ClientsHear channels msgs := by
  intro ids before after s t hbefore hafter hsub hselect x c hc hentitled
  obtain ⟨msg, hmsg, hchannel⟩ := h c hc
  obtain ⟨e, he, hsend⟩ := List.mem_map.mp (hsub.subset (List.mem_map_of_mem hmsg))
  have haccepted : msg ∈ accepted e.1.hub x e.2 := by
    rw [hsend, accepted, if_pos (hchannel ▸ hentitled e he)]
    exact List.mem_singleton_self msg
  have hsum := run_delivers (x := x) hafter (indexed_run hbefore) (sendsToEntry_run hbefore)
  have howed : owed t x = [] := by rw [owed, hselect]
  rw [howed, List.append_nil] at hsum
  refine ⟨msg, ?_, hchannel⟩
  rw [hsum]
  exact List.mem_append_right _ (List.mem_flatMap.mpr ⟨e, he, haccepted⟩)

/-- One client is registered and listens to one channel. -/
def listening (c : String) : HubState :=
  ⟨((init fun _ => "id").hub.register 0 []).subscribeChannel "id" c, .select⟩

theorem listening_run (c : String) : ∃ hist, Run step (init fun _ => "id") hist (listening c) := by
  have hregister : step (init fun _ => "id") (.register 0 []) =
      some ⟨(init fun _ => "id").hub.register 0 [], .select⟩ :=
    step_register.mpr ⟨rfl, by decide, rfl⟩
  have hsubscribe : step ⟨(init fun _ => "id").hub.register 0 [], .select⟩ (.subscribe ⟨"id", c⟩) =
      some (listening c) := step_subscribe.mpr ⟨rfl, rfl⟩
  exact ⟨_, (Run.one hregister).next hsubscribe⟩

theorem entitled_listening (c : String) : Entitled (listening c).hub 0 c := by
  have hentry : ((init fun _ => "id").hub.register 0 []).clients.get "id" = some 0 := by decide
  have hid : ((listening c).hub.client 0).clientID = "id" := by
    rw [listening, WebSocketHub.subscribeChannel_client]
    rfl
  rw [Entitled, hid, listening, WebSocketHub.subscribeChannel_clients]
  exact ⟨hentry, WebSocketHub.relates_subscribeChannel.mpr (.inr ⟨⟨0, hentry⟩, rfl, rfl⟩)⟩

theorem step_listening {c : String} {msg : ClientMessage} (hne : msg.channel ≠ c) :
    step (listening c) (.send msg) = some (listening c) := by
  obtain ⟨hist, run⟩ := listening_run c
  have hnone : (listening c).hub.channels.get msg.channel = none := by
    by_contra hsome
    obtain ⟨ids, hids⟩ := Option.ne_none_iff_exists'.mp hsome
    obtain ⟨i, hi⟩ := (indexed_run run).nonempty _ _ hids
    have hrelates : Relates (listening c).hub.channels msg.channel i := ⟨ids, hids, hi⟩
    rcases WebSocketHub.relates_subscribeChannel.mp hrelates with ⟨_, hempty, -⟩ | ⟨-, h, -⟩
    · cases hempty
    · exact hne h
  exact step_send.mpr ⟨rfl, rfl, .inr ⟨hnone, rfl⟩⟩

/-- The clients of a channel hear of a change if and only if a message is sent on it. -/
theorem clientsHear_iff : ClientsHear channels msgs ↔ ChannelsHear channels msgs := by
  refine ⟨fun h c hc => ?_, ChannelsHear.clients⟩
  by_contra hnone
  have hne : ∀ msg ∈ msgs, msg.channel ≠ c := fun msg hmsg heq => hnone ⟨msg, hmsg, heq⟩
  have hrun : ∀ l : List ClientMessage, (∀ msg ∈ l, msg.channel ≠ c) →
      Run step (listening c) (l.map fun msg => (listening c, .send msg)) (listening c) := by
    intro l hl
    induction l with
    | nil => exact .start
    | cons msg l ih =>
      have hfirst := step_listening (hl msg List.mem_cons_self)
      exact (Run.one hfirst).trans (ih fun m hm => hl m (List.mem_cons_of_mem _ hm))
  obtain ⟨before, hbefore⟩ := listening_run c
  have hsub : (msgs.map Event.send).Sublist
      ((msgs.map fun msg => (listening c, Event.send msg)).map Prod.snd) := by
    rw [List.map_map]
    exact List.Sublist.refl _
  obtain ⟨msg, hmsg, -⟩ := h _ before _ _ _ hbefore (hrun msgs hne) hsub rfl 0 c hc fun e he => by
    obtain ⟨msg, -, rfl⟩ := List.mem_map.mp he
    exact entitled_listening c
  obtain ⟨e, he, hmem⟩ := List.mem_flatMap.mp hmsg
  obtain ⟨msg', -, rfl⟩ := List.mem_map.mp he
  cases hmem

end Hear

section Changes

variable {rt : Runtime α} {s : Messaging} {dbKey table : String} {pk : PrimaryKey α}
  {change : Change}

/-- The channels that clients can watch for the record. -/
def watched (rt : Runtime α) (dbKey table : String) (pk : PrimaryKey α) : List String :=
  [makeKey rt dbKey table (.string ""), makeKey rt dbKey table pk]

theorem marshal_update (fieldKeys : Option (List String)) :
    (∃ msg, (Message.update pk fieldKeys).marshal rt = .ok msg) ↔
      ∃ text, pk.marshal rt = .ok text := by
  rw [Message.marshal]
  cases pk.marshal rt with
  | ok text => exact iff_of_true ⟨_, rfl⟩ ⟨text, rfl⟩
  | error err => exact iff_of_false (fun ⟨_, h⟩ => by cases h) fun ⟨_, h⟩ => by cases h

theorem channelsHear_update (hstarted : s.Messenger = some ⟨true⟩) (hpk : pk.isEmpty = false)
    (fieldKeys : Option (List String)) : ChannelsHear (watched rt dbKey table pk)
        (passed (broadcastUpdate rt dbKey table pk fieldKeys) s) ↔
      ∃ text, pk.marshal rt = .ok text := by
  rw [passed_update hstarted, ← marshal_update fieldKeys, watched]
  have hne : makeKey rt dbKey table (.string "") ≠ makeKey rt dbKey table pk :=
    makeKey_ne_table hpk
  cases (Message.update pk fieldKeys).marshal rt with
  | ok msg =>
    refine iff_of_true ?_ ⟨msg, rfl⟩
    simp [ChannelsHear]
  | error err =>
    refine iff_of_false ?_ fun ⟨_, h⟩ => by cases h
    simp [ChannelsHear, hne]

theorem not_channelsHear_delete (hstarted : s.Messenger = some ⟨true⟩) (hpk : pk.isEmpty = false) :
    ¬ChannelsHear (watched rt dbKey table pk) (passed (broadcastDelete rt dbKey table pk) s) := by
  rw [passed_delete hstarted, watched]
  simp [ChannelsHear, makeKey_ne_table hpk]

/-- The messenger passes messages to a hub, and the change is an update whose primary key has a JSON
form. -/
def Heard (rt : Runtime α) (s : Messaging) (pk : PrimaryKey α) (change : Change) : Prop :=
  s.Messenger = some ⟨true⟩ ∧ (∃ fieldKeys, change = .update fieldKeys) ∧
    ∃ text, pk.marshal rt = .ok text

/-- Those who watch a record or its table hear of an update whose primary key has a JSON form, once
the messenger is started, and they do not all hear of any other change of it. -/
theorem watchers_hear_iff (hpk : pk.isEmpty = false) :
    (ChannelsHear (watched rt dbKey table pk) (passed (change.broadcast rt dbKey table pk) s) ↔
      Heard rt s pk change) ∧
    (ClientsHear (watched rt dbKey table pk) (passed (change.broadcast rt dbKey table pk) s) ↔
      Heard rt s pk change) := by
  rw [clientsHear_iff, and_self, Heard]
  by_cases hstarted : s.Messenger = some ⟨true⟩
  swap
  · rw [passed_idle hstarted]
    refine iff_of_false (fun h => ?_) fun h => hstarted h.1
    obtain ⟨msg, hmsg, -⟩ := h _ List.mem_cons_self
    cases hmsg
  rw [and_iff_right hstarted]
  cases change with
  | update fieldKeys =>
    rw [and_iff_right ⟨fieldKeys, rfl⟩]
    exact channelsHear_update hstarted hpk fieldKeys
  | delete =>
    refine iff_of_false (not_channelsHear_delete hstarted hpk) ?_
    rintro ⟨⟨_, h⟩, -⟩
    cases h

end Changes

def startedMessaging : Messaging := ⟨some ⟨true⟩, [], none⟩

theorem watchers_hear_iff_order : ClientsHear (watched plainRuntime "shop" "orders" (.other 7))
    (passed ((Change.update (some ["total"])).broadcast plainRuntime "shop" "orders" (.other 7))
      startedMessaging) :=
  (watchers_hear_iff rfl).2.mpr ⟨rfl, ⟨_, rfl⟩, _, rfl⟩

/-- Who watches the record 7 does not hear that it is deleted. -/
theorem deleted_unheard : ¬ClientsHear [makeKey plainRuntime "shop" "orders" (.other 7)]
    (passed (broadcastDelete plainRuntime "shop" "orders" (.other 7)) startedMessaging) := by
  intro h
  obtain ⟨msg, hmsg, hchannel⟩ := clientsHear_iff.mp h _ (List.mem_singleton_self _)
  rw [passed_delete rfl, List.mem_singleton] at hmsg
  rw [hmsg] at hchannel
  revert hchannel
  decide

end GoraddServe.Watchers
