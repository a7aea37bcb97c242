import GoraddServe.HubIndex

/-!
# The hub with the goroutines of its clients

Every connection has a `readPump`, which offers its subscriptions and at last the client
itself to the hub, and a `writePump`, which drains the queue of the client in batches. The
channels between them and the hub are unbuffered, so an event of the hub is one step that a
pump and the hub take together.
-/
namespace GoraddServe.ClientPumps
open BufferedChannels GoMaps MessageHub LabelledRuns HubLoop

/-- What the browser sends. `message` is the JSON text of the field, which `messenger.Send`
passes on. -/
structure InMessage where
  subscribe : List String
  channel : String
  message : String

/-- Where `serveWs` and then `readPump` stand. -/
inductive ReadPump where
  /-- at `client.hub.register <- client` -/
  | registering
  /-- in `ReadMessage` -/
  | reading
  /-- at `c.hub.subscribe <- s` for `channel`, before those of `rest` -/
  | subscribing (channel : String) (rest : List String) (out : Option ClientMessage)
  /-- at `m.hub.send <- clientMessage{channel, message}` -/
  | sending (msg : ClientMessage)
  /-- at `c.hub.unregister <- c` -/
  | unregistering
  | closed
  deriving DecidableEq

/-- What is left of `handleMessage`. -/
def ReadPump.handle : List String → Option ClientMessage → ReadPump
  | channel :: rest, out => .subscribing channel rest out
  | [], some msg => .sending msg
  | [], none => .reading

def handleMessage (msg : InMessage) : ReadPump :=
  .handle msg.subscribe (if msg.channel ≠ "" then some ⟨msg.channel, msg.message⟩ else none)

/-- Where `writePump` stands. -/
inductive WritePump where
  /-- before `go client.writePump()` -/
  | unstarted
  /-- at the `select` -/
  | waiting
  /-- before `n := len(c.send)` -/
  | received (message : ClientMessage)
  /-- in the loop that adds queued messages, `n` of them still to come -/
  | draining (messages : List ClientMessage) (n : ℕ)
  | ended
  deriving DecidableEq

/-- The array `writePump` is building. -/
def WritePump.batch : WritePump → List ClientMessage
  | .received message => [message]
  | .draining messages _ => messages
  | _ => []

structure System where
  loop : HubState
  reader : ClientPtr → ReadPump
  writer : ClientPtr → WritePump
  /-- the arrays written to the connection so far -/
  written : ClientPtr → List (List ClientMessage)

inductive Action where
  | register (p : ClientPtr) (order : List String)
  | unregister (p : ClientPtr) (order : List String)
  | subscribe (p : ClientPtr) (channel : String)
  /-- a message sent by some goroutine of the server -/
  | send (msg : ClientMessage)
  /-- a message sent on by the `readPump` of `p` -/
  | forward (p : ClientPtr) (msg : ClientMessage)
  | visit (clientID : String)
  | deliver
  | leave
  | read (p : ClientPtr) (msg : InMessage)
  | readError (p : ClientPtr)
  /-- `message := <-c.send` -/
  | take (p : ClientPtr)
  /-- `n := len(c.send)` -/
  | count (p : ClientPtr)
  /-- `messages = append(messages, <-c.send)` -/
  | drain (p : ClientPtr)
  | write (p : ClientPtr)
  /-- `NextWriter` or `Close` fails -/
  | writeError (p : ClientPtr)
  | ping (p : ClientPtr)
  | pingError (p : ClientPtr)

namespace System

variable (s : System)

/-- The queue `c.send` of a client. -/
def queue (p : ClientPtr) : List ClientMessage := (s.loop.hub.client p).send.buf

abbrev clientID (p : ClientPtr) : String := (s.loop.hub.client p).clientID

def setReader (p : ClientPtr) (r : ReadPump) : System :=
  { s with reader := Function.update s.reader p r }

def setWriter (p : ClientPtr) (w : WritePump) : System :=
  { s with writer := Function.update s.writer p w }

end System

/-- The event of the hub that is part of an action. -/
def hubEvent (s : System) : Action → Option Event
  | .register p order => some (.register p order)
  | .unregister p order => some (.unregister p order)
  | .subscribe p channel => some (.subscribe ⟨s.clientID p, channel⟩)
  | .send msg | .forward _ msg => some (.send msg)
  | .visit i => some (.visit i)
  | .deliver => some .deliver
  | .leave => some .leave
  | .take p | .drain p => some (.drain p)
  | .read .. | .readError _ | .count _ | .write _ | .writeError _ | .ping _ | .pingError _ => none

/-- The part of an action that a pump takes. Nothing in the package closes `c.send`, so a
receive from it never reports a closed channel. -/
def pump (s : System) : Action → Option System
  | .register p _ =>
    if s.reader p = .registering then some ((s.setReader p .reading).setWriter p .waiting) else none
  | .unregister p _ =>
    if s.reader p = .unregistering then some (s.setReader p .closed) else none
  | .subscribe p channel =>
    match s.reader p with
    | .subscribing c rest out =>
      if c = channel then some (s.setReader p (.handle rest out)) else none
    | _ => none
  | .forward p msg =>
    if s.reader p = .sending msg then some (s.setReader p .reading) else none
  | .send _ | .visit _ | .deliver | .leave => some s
  | .read p msg => if s.reader p = .reading then some (s.setReader p (handleMessage msg)) else none
  | .readError p => if s.reader p = .reading then some (s.setReader p .unregistering) else none
  | .take p =>
    match s.writer p, s.queue p with
    | .waiting, message :: _ => some (s.setWriter p (.received message))
    | _, _ => none
  | .count p =>
    match s.writer p with
    | .received message => some (s.setWriter p (.draining [message] (s.queue p).length))
    | _ => none
  | .drain p =>
    match s.writer p, s.queue p with
    | .draining messages (n + 1), message :: _ =>
      some (s.setWriter p (.draining (messages ++ [message]) n))
    | _, _ => none
  | .write p =>
    match s.writer p with
    | .draining messages 0 =>
      some { s.setWriter p .waiting with
        written := Function.update s.written p (s.written p ++ [messages]) }
    | _ => none
  | .writeError p =>
    match s.writer p with
    | .draining _ 0 => some (s.setWriter p .ended)
    | _ => none
  | .ping p => if s.writer p = .waiting then some s else none
  | .pingError p => if s.writer p = .waiting then some (s.setWriter p .ended) else none

def step (s : System) (a : Action) : Option System :=
  match hubEvent s a with
  | none => pump s a
  | some e => (HubLoop.step s.loop e).bind fun loop => (pump s a).map ({ · with loop })

/-- No connection has been made yet; the clients will have the IDs `ids`. -/
def init (ids : ClientPtr → String) : System :=
  ⟨HubLoop.init ids, fun _ => .registering, fun _ => .unstarted, fun _ => []⟩

variable {s t u : System} {a : Action} {p q : ClientPtr}

@[simp] theorem setReader_reader (r : ReadPump) :
    (s.setReader p r).reader = Function.update s.reader p r := rfl

@[simp] theorem setWriter_writer (w : WritePump) :
    (s.setWriter p w).writer = Function.update s.writer p w := rfl

@[simp] theorem setReader_writer (r : ReadPump) : (s.setReader p r).writer = s.writer := rfl

@[simp] theorem setWriter_reader (w : WritePump) : (s.setWriter p w).reader = s.reader := rfl

@[simp] theorem setWriter_written (w : WritePump) : (s.setWriter p w).written = s.written := rfl

theorem pump_register {order : List String} :
    pump s (.register p order) = some t ↔
      s.reader p = .registering ∧ t = (s.setReader p .reading).setWriter p .waiting := by
  simp [pump, eq_comm (b := t)]

theorem pump_unregister {order : List String} :
    pump s (.unregister p order) = some t ↔
      s.reader p = .unregistering ∧ t = s.setReader p .closed := by
  simp [pump, eq_comm (b := t)]

theorem pump_subscribe {channel : String} :
    pump s (.subscribe p channel) = some t ↔
      ∃ rest out, s.reader p = .subscribing channel rest out ∧
        t = s.setReader p (.handle rest out) := by
  cases h : s.reader p <;> simp [pump, h, eq_comm (b := t), and_assoc]

theorem pump_forward {msg : ClientMessage} :
    pump s (.forward p msg) = some t ↔
      s.reader p = .sending msg ∧ t = s.setReader p .reading := by
  simp [pump, eq_comm (b := t)]

theorem pump_read {msg : InMessage} :
    pump s (.read p msg) = some t ↔
      s.reader p = .reading ∧ t = s.setReader p (handleMessage msg) := by
  simp [pump, eq_comm (b := t)]

theorem pump_readError :
    pump s (.readError p) = some t ↔
      s.reader p = .reading ∧ t = s.setReader p .unregistering := by
  simp [pump, eq_comm (b := t)]

theorem pump_take :
    pump s (.take p) = some t ↔
      s.writer p = .waiting ∧ ∃ message rest, s.queue p = message :: rest ∧
        t = s.setWriter p (.received message) := by
  cases h : s.writer p <;> cases hq : s.queue p <;> simp [pump, h, hq, eq_comm (b := t)]

theorem pump_count :
    pump s (.count p) = some t ↔
      ∃ message, s.writer p = .received message ∧
        t = s.setWriter p (.draining [message] (s.queue p).length) := by
  cases h : s.writer p <;> simp [pump, h, eq_comm (b := t)]

theorem pump_drain :
    pump s (.drain p) = some t ↔
      ∃ messages n message rest, s.writer p = .draining messages (n + 1) ∧
        s.queue p = message :: rest ∧ t = s.setWriter p (.draining (messages ++ [message]) n) := by
  cases h : s.writer p with
  | draining messages n =>
    cases n <;> cases hq : s.queue p <;> simp [pump, h, hq, eq_comm (b := t)]
  | _ => simp [pump, h]

theorem pump_write :
    pump s (.write p) = some t ↔
      ∃ messages, s.writer p = .draining messages 0 ∧
        t = { s.setWriter p .waiting with
          written := Function.update s.written p (s.written p ++ [messages]) } := by
  cases h : s.writer p with
  | draining messages n => cases n <;> simp [pump, h, eq_comm (b := t)]
  | _ => simp [pump, h]

theorem pump_writeError :
    pump s (.writeError p) = some t ↔
      ∃ messages, s.writer p = .draining messages 0 ∧ t = s.setWriter p .ended := by
  cases h : s.writer p with
  | draining messages n => cases n <;> simp [pump, h, eq_comm (b := t)]
  | _ => simp [pump, h]

theorem pump_ping : pump s (.ping p) = some t ↔ s.writer p = .waiting ∧ t = s := by
  simp [pump, eq_comm (b := t)]

theorem pump_pingError :
    pump s (.pingError p) = some t ↔ s.writer p = .waiting ∧ t = s.setWriter p .ended := by
  simp [pump, eq_comm (b := t)]

theorem pump_loop (h : pump s a = some t) : t.loop = s.loop := by
  cases a <;> simp only [pump] at h <;> (try split at h) <;> (try split at h) <;> cases h <;> rfl

/-- An action is a move of a pump and an event of the hub, where it has one. -/
theorem step_eq_some :
    step s a = some t ↔ pump s a = some { t with loop := s.loop } ∧
      StepOrStay HubLoop.step s.loop (hubEvent s a) t.loop := by
  unfold step
  cases he : hubEvent s a with
  | none =>
    dsimp only [StepOrStay]
    constructor
    · intro h
      have hl := pump_loop h
      exact ⟨by rw [h, ← hl], hl⟩
    · rintro ⟨h, hl⟩
      rw [h, ← hl]
  | some e =>
    simp only [StepOrStay, Option.bind_eq_some_iff, Option.map_eq_some_iff]
    constructor
    · rintro ⟨loop, hloop, u, hu, rfl⟩
      exact ⟨by rw [hu, ← pump_loop hu], hloop⟩
    · rintro ⟨hp, hloop⟩
      exact ⟨t.loop, hloop, _, hp, rfl⟩

theorem step_loop (h : step s a = some t) :
    StepOrStay HubLoop.step s.loop (hubEvent s a) t.loop := (step_eq_some.mp h).2

theorem step_clientID (h : step s a = some t) (q : ClientPtr) : t.clientID q = s.clientID q := by
  have hloop := step_loop h
  cases he : hubEvent s a with
  | none =>
    rw [he] at hloop
    exact congrArg (fun loop : HubState => (loop.hub.client q).clientID) hloop
  | some e =>
    rw [he] at hloop
    exact HubLoop.step_clientID hloop q

theorem run_loop {hist : List (System × Action)} (run : Run step s hist t) :
    Run HubLoop.step s.loop
      (hist.filterMap fun e => (hubEvent e.1 e.2).map (e.1.loop, ·)) t.loop :=
  run.project System.loop hubEvent fun _ _ _ h => step_loop h

theorem indexed_system {ids : ClientPtr → String} {hist : List (System × Action)}
    (run : Run step (init ids) hist s) : HubIndex.Indexed s.loop.hub :=
  HubIndex.indexed_run (run_loop run)

private theorem handle_ne_registering (channels : List String) (out : Option ClientMessage) :
    ReadPump.handle channels out ≠ .registering := by
  cases channels <;> cases out <;> simp [ReadPump.handle]

/-- At most one reader moves, and none goes back to `serveWs`. -/
theorem pump_reader (h : pump s a = some t) :
    t.reader = s.reader ∨ ∃ p r, r ≠ .registering ∧ t.reader = Function.update s.reader p r := by
  cases a with
  | register p order =>
    obtain ⟨-, rfl⟩ := pump_register.mp h
    exact .inr ⟨p, .reading, by simp, rfl⟩
  | unregister p order =>
    obtain ⟨-, rfl⟩ := pump_unregister.mp h
    exact .inr ⟨p, .closed, by simp, rfl⟩
  | subscribe p channel =>
    obtain ⟨rest, out, -, rfl⟩ := pump_subscribe.mp h
    exact .inr ⟨p, _, handle_ne_registering rest out, rfl⟩
  | forward p msg =>
    obtain ⟨-, rfl⟩ := pump_forward.mp h
    exact .inr ⟨p, .reading, by simp, rfl⟩
  | send | visit | deliver | leave =>
    obtain rfl : s = t := Option.some.inj h
    exact .inl rfl
  | read p msg =>
    obtain ⟨-, rfl⟩ := pump_read.mp h
    exact .inr ⟨p, _, handle_ne_registering _ _, rfl⟩
  | readError p =>
    obtain ⟨-, rfl⟩ := pump_readError.mp h
    exact .inr ⟨p, .unregistering, by simp, rfl⟩
  | take p =>
    obtain ⟨-, _, _, -, rfl⟩ := pump_take.mp h
    exact .inl rfl
  | count p =>
    obtain ⟨_, -, rfl⟩ := pump_count.mp h
    exact .inl rfl
  | drain p =>
    obtain ⟨_, _, _, _, -, -, rfl⟩ := pump_drain.mp h
    exact .inl rfl
  | write p =>
    obtain ⟨_, -, rfl⟩ := pump_write.mp h
    exact .inl rfl
  | writeError p =>
    obtain ⟨_, -, rfl⟩ := pump_writeError.mp h
    exact .inl rfl
  | ping p =>
    obtain ⟨-, rfl⟩ := pump_ping.mp h
    exact .inl rfl
  | pingError p =>
    obtain ⟨-, rfl⟩ := pump_pingError.mp h
    exact .inl rfl

def Action.readsOnly : Action → Bool
  | .register .. | .take _ | .count _ | .drain _ | .write _ | .writeError _ | .pingError _ => false
  | _ => true

theorem pump_readsOnly (h : pump s a = some t) (ha : a.readsOnly = true) :
    ∃ reader, t = { s with reader := reader } := by
  cases a with
  | unregister p order =>
    obtain ⟨-, rfl⟩ := pump_unregister.mp h
    exact ⟨_, rfl⟩
  | subscribe p channel =>
    obtain ⟨_, _, -, rfl⟩ := pump_subscribe.mp h
    exact ⟨_, rfl⟩
  | forward p msg =>
    obtain ⟨-, rfl⟩ := pump_forward.mp h
    exact ⟨_, rfl⟩
  | send | visit | deliver | leave =>
    obtain rfl : s = t := Option.some.inj h
    exact ⟨s.reader, rfl⟩
  | read p msg =>
    obtain ⟨-, rfl⟩ := pump_read.mp h
    exact ⟨_, rfl⟩
  | readError p =>
    obtain ⟨-, rfl⟩ := pump_readError.mp h
    exact ⟨_, rfl⟩
  | ping p =>
    obtain ⟨-, rfl⟩ := pump_ping.mp h
    exact ⟨t.reader, rfl⟩
  | register | take | count | drain | write | writeError | pingError => cases ha

/-- Registering starts a writer; otherwise at most one writer moves, and it had been started. -/
theorem pump_writer (h : pump s a = some t) :
    t.writer = s.writer ∨
      (∃ p, t.reader p ≠ .registering ∧ t.writer = Function.update s.writer p .waiting) ∨
      ∃ p w, s.writer p ≠ .unstarted ∧ t.writer = Function.update s.writer p w := by
  cases a with
  | register p order =>
    obtain ⟨-, rfl⟩ := pump_register.mp h
    exact .inr (.inl ⟨p, by simp, rfl⟩)
  | unregister | subscribe | forward | read | readError | ping | send | visit | deliver | leave =>
    obtain ⟨reader, rfl⟩ := pump_readsOnly h rfl
    exact .inl rfl
  | take p =>
    obtain ⟨hw, _, _, -, rfl⟩ := pump_take.mp h
    exact .inr (.inr ⟨p, _, by simp [hw], rfl⟩)
  | count p =>
    obtain ⟨_, hw, rfl⟩ := pump_count.mp h
    exact .inr (.inr ⟨p, _, by simp [hw], rfl⟩)
  | drain p =>
    obtain ⟨_, _, _, _, hw, -, rfl⟩ := pump_drain.mp h
    exact .inr (.inr ⟨p, _, by simp [hw], rfl⟩)
  | write p =>
    obtain ⟨_, hw, rfl⟩ := pump_write.mp h
    exact .inr (.inr ⟨p, .waiting, by simp [hw], rfl⟩)
  | writeError p =>
    obtain ⟨_, hw, rfl⟩ := pump_writeError.mp h
    exact .inr (.inr ⟨p, _, by simp [hw], rfl⟩)
  | pingError p =>
    obtain ⟨hw, rfl⟩ := pump_pingError.mp h
    exact .inr (.inr ⟨p, _, by simp [hw], rfl⟩)

theorem registered_step (h : step s a = some t) (hq : s.reader q ≠ .registering) :
    t.reader q ≠ .registering := by
  rcases pump_reader (step_eq_some.mp h).1 with hr | ⟨p, r, hne, hr⟩
  · rwa [show t.reader = s.reader from hr]
  · rw [show t.reader = _ from hr, Function.update_apply]
    split
    · exact hne
    · exact hq

/-- No goroutine of a connection runs before the hub has registered it. -/
def Unstarted (s : System) : Prop := ∀ p, s.reader p = .registering → s.writer p = .unstarted

theorem unstarted_step (hs : Unstarted s) (h : step s a = some t) : Unstarted t := by
  intro q hq
  have hstill : s.reader q = .registering := by
    by_contra hne
    exact registered_step h hne hq
  have hw := hs q hstill
  rcases pump_writer (step_eq_some.mp h).1 with ht | ⟨p, hp, ht⟩ | ⟨p, w, hp, ht⟩
  · rw [show t.writer = s.writer from ht, hw]
  · have hne : q ≠ p := fun heq => hp (heq ▸ hq)
    rw [show t.writer = _ from ht, Function.update_of_ne hne, hw]
  · have hne : q ≠ p := fun heq => hp (heq ▸ hw)
    rw [show t.writer = _ from ht, Function.update_of_ne hne, hw]

theorem unstarted_run {ids : ClientPtr → String} {hist : List (System × Action)}
    (run : Run step (init ids) hist s) : Unstarted s :=
  run.invariant (I := Unstarted) (fun _ _ _ hs h => unstarted_step hs h) (fun _ _ => rfl)

end GoraddServe.ClientPumps
