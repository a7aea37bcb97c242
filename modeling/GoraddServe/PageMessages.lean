import GoraddServe.MessageHub
import GoraddServe.RefreshList

/-!
# The page at the end of a connection

`goradd-ws.js` opens a websocket, asks the server for channels, and hands each message that
comes in to the function that was given for its channel. The functions run one after another
inside of the event of one frame, and may ask for more channels. What the browser and the
scripts of the page do is a label.
-/
namespace GoraddServe.PageMessages
open GoMaps MessageHub RefreshList

/-- What is called for a channel: `_processWatcherMessage`, or a function of the page. -/
inductive Callback (F : Type) where
  | watcher
  | script (f : F)
  deriving DecidableEq

/-- `goradd._ws`, from before `initMessagingClient` to after its close event. -/
inductive Socket where
  | unmade
  | connecting
  | opened
  | closing
  | closed
  deriving DecidableEq

/-- Where control is. -/
inductive Turn where
  /-- in the event loop, or in a script that it has called -/
  | idle
  /-- in the loop of `_handleWsMessage`, with these messages still to come -/
  | handling (rest : List ClientMessage)
  /-- in a function that the loop has called -/
  | calling (rest : List ClientMessage)
  deriving DecidableEq

/-- The messages of the frame that are still to come. -/
def Turn.rest : Turn → List ClientMessage
  | .idle => []
  | .handling rest | .calling rest => rest

/-- A script of the page runs, or may run. -/
def Turn.script : Turn → Bool
  | .handling _ => false
  | .idle | .calling _ => true

/-- The variables of the two scripts, and a record of the calls that were made for messages.
`outgoing` has the lists of channels that are on their way to the server. -/
structure Page (F : Type) where
  socket : Socket
  channels : GoMap String (Callback F)
  shim : Shim
  outgoing : List (List String)
  turn : Turn
  called : List (Callback F × ClientMessage)

/-- What may happen to the variables of `goradd.js`. A message of a watched channel comes from the
loop alone, and the events of the browser wait for the end of a function that is running. -/
def Turn.permits : Turn → RefreshList.Action → Bool
  | _, .watcherMessage .. | .handling _, _ => false
  | .idle, _ => true
  | .calling _, .refresh _ | .calling _, .addWatcher .. | .calling _, .updateForm
  | .calling _, .block _ | .calling _, .postAjax _ | .calling _, .send => true
  | .calling _, _ => false

inductive Action (F : Type) where
  | initMessagingClient
  /-- the open event; `order` is the order of the keys of `_watchers` -/
  | opened (order : List String)
  /-- a script calls `goradd.subscribe` -/
  | subscribe (names : List String) (f : F)
  | message (frame : List ClientMessage)
  /-- the loop of `_handleWsMessage` goes on to its next message; the page has these controls -/
  | dispatch (controls : List String)
  | returned
  | thrown
  | handled
  | closeWebSocket
  | closed
  | shim (a : RefreshList.Action)
  deriving DecidableEq

namespace Page

variable {F : Type}

def init : Page F := ⟨.unmade, ∅, RefreshList.init, [], .idle, []⟩

variable (p : Page F)

/-- The loop of `goradd.subscribe`. -/
def setCallbacks (names : List String) (f : Callback F) : GoMap String (Callback F) :=
  names.foldl (fun channels name => channels.set name f) p.channels

/-- A socket that is not open throws, and one that closes drops what is sent. -/
def subscribe (names : List String) (f : Callback F) : Option (Page F) :=
  match p.socket with
  | .opened =>
    some { p with outgoing := p.outgoing ++ [names], channels := p.setCallbacks names f }
  | .closing => some { p with channels := p.setCallbacks names f }
  | .unmade | .connecting | .closed => none

/-- The socket calls `subscribeWatchers`. -/
def onopen (order : List String) : Option (Page F) :=
  if p.socket = .connecting ∧ p.turn = .idle ∧ Enumerates order p.shim.watchers.keys then
    { p with socket := .opened }.subscribe order .watcher
  else none

/-- Messages that come when the socket closes are dropped. -/
def handleWsMessage (frame : List ClientMessage) : Option (Page F) :=
  if p.socket = .opened ∧ p.turn = .idle then some { p with turn := .handling frame } else none

def dispatch (controls : List String) : Option (Page F) :=
  match p.turn with
  | .handling (msg :: rest) =>
    match p.channels.get msg.channel with
    | none => some { p with turn := .handling rest }
    | some .watcher =>
      some { p with
        turn := .handling rest
        shim := processWatcherMessage controls p.shim msg.channel msg.message
        called := p.called ++ [(.watcher, msg)] }
    | some (.script f) =>
      some { p with turn := .calling rest, called := p.called ++ [(.script f, msg)] }
  | _ => none

def closeWebSocket : Page F :=
  match p.socket with
  | .unmade | .closed => p
  | .connecting | .opened | .closing => { p with socket := .closing }

def handleWsClose : Option (Page F) :=
  if p.turn = .idle ∧ p.socket ≠ .unmade ∧ p.socket ≠ .closed then
    some { p with socket := .closed, channels := ∅ }
  else none

end Page

def step {F : Type} (p : Page F) : Action F → Option (Page F)
  | .initMessagingClient =>
    if p.socket = .unmade ∧ p.turn = .idle then some { p with socket := .connecting } else none
  | .opened order => p.onopen order
  | .subscribe names f => if p.turn.script then p.subscribe names (.script f) else none
  | .message frame => p.handleWsMessage frame
  | .dispatch controls => p.dispatch controls
  | .returned =>
    match p.turn with
    | .calling rest => some { p with turn := .handling rest }
    | _ => none
  | .thrown =>
    match p.turn with
    | .calling _ => some { p with turn := .idle }
    | _ => none
  | .handled => if p.turn = .handling [] then some { p with turn := .idle } else none
  | .closeWebSocket => if p.turn.script then some p.closeWebSocket else none
  | .closed => p.handleWsClose
  | .shim a =>
    if p.turn.permits a then (RefreshList.step p.shim a).map fun shim => { p with shim } else none

section Steps

variable {F : Type} {p q : Page F} {a : Action F} {names : List String} {f : Callback F}

theorem get_setCallbacks (c : String) :
    (p.setCallbacks names f).get c = if c ∈ names then some f else p.channels.get c := by
  unfold Page.setCallbacks
  generalize p.channels = channels
  induction names generalizing channels with
  | nil => simp
  | cons name names ih =>
    rw [List.foldl_cons, ih, GoMap.get_set]
    by_cases hc : c ∈ names
    · simp [hc]
    · simp [hc]

/-- The channels that a step asks for, and the function that is given for them. -/
def assigned : Action F → Option (List String × Callback F)
  | .opened order => some (order, .watcher)
  | .subscribe names f => some (names, .script f)
  | _ => none

/-- The channels that an action asks the server for. -/
def requested (p : Page F) (a : Action F) : List (List String) :=
  match assigned a with
  | some (names, _) => if p.socket = .closing then [] else [names]
  | none => []

theorem subscribe_eq_some : p.subscribe names f = some q ↔
    (p.socket = .opened ∨ p.socket = .closing) ∧
      q = { p with
        outgoing := p.outgoing ++ if p.socket = .closing then [] else [names]
        channels := p.setCallbacks names f } := by
  unfold Page.subscribe
  cases h : p.socket <;> simp [eq_comm (a := q)]

/-- The frame that an action takes from the connection. -/
def frameOf : Action F → List (List ClientMessage)
  | .message frame => [frame]
  | _ => []

/-- A step asks for channels, or moves on in a frame, or does neither. -/
inductive Effect (p : Page F) : Action F → Page F → Prop where
  | asked {a : Action F} {names : List String} {f : Callback F} (socket : Socket)
      (ha : assigned a = some (names, f))
      (hsocket : socket = .opened → p.socket = .opened ∨ ∃ order, a = .opened order) :
      Effect p a { p with
        socket
        outgoing := p.outgoing ++ requested p a
        channels := p.setCallbacks names f }
  | message (frame : List ClientMessage) (hturn : p.turn = .idle) :
      Effect p (.message frame) { p with turn := .handling frame }
  | ignored {msg : ClientMessage} {rest : List ClientMessage} (controls : List String)
      (hturn : p.turn = .handling (msg :: rest)) (hget : p.channels.get msg.channel = none) :
      Effect p (.dispatch controls) { p with turn := .handling rest }
  | watched {msg : ClientMessage} {rest : List ClientMessage} (controls : List String)
      (hturn : p.turn = .handling (msg :: rest))
      (hget : p.channels.get msg.channel = some .watcher) :
      Effect p (.dispatch controls) { p with
        turn := .handling rest
        shim := processWatcherMessage controls p.shim msg.channel msg.message
        called := p.called ++ [(.watcher, msg)] }
  | called {msg : ClientMessage} {rest : List ClientMessage} {f : F} (controls : List String)
      (hturn : p.turn = .handling (msg :: rest))
      (hget : p.channels.get msg.channel = some (.script f)) :
      Effect p (.dispatch controls) { p with
        turn := .calling rest
        called := p.called ++ [(.script f, msg)] }
  | resumed {a : Action F} (turn : Turn) (ha : a = .returned ∨ a = .handled)
      (hrest : turn.rest = p.turn.rest) : Effect p a { p with turn }
  | thrown : Effect p .thrown { p with turn := .idle }
  | socket {a : Action F} (socket : Socket) (ha : a = .initMessagingClient ∨ a = .closeWebSocket)
      (hsocket : socket = .opened → p.socket = .opened) : Effect p a { p with socket }
  | closed (hturn : p.turn = .idle) :
      Effect p .closed { p with socket := .closed, channels := ∅ }
  | shim {a : RefreshList.Action} {shim : Shim} (ha : p.turn.permits a = true)
      (hstep : RefreshList.step p.shim a = some shim) : Effect p (.shim a) { p with shim }

theorem effect_of_step (h : step p a = some q) : Effect p a q := by
  cases a with
  | initMessagingClient =>
    obtain ⟨-, h⟩ := Option.ite_none_right_eq_some.mp h
    cases h
    exact .socket _ (.inl rfl) (by simp)
  | opened order =>
    obtain ⟨⟨hsocket, -, -⟩, h⟩ := Option.ite_none_right_eq_some.mp h
    obtain ⟨-, rfl⟩ := subscribe_eq_some.mp h
    have hrequested : requested p (.opened order) = [order] := by
      simp [requested, assigned, hsocket]
    have hasked : Effect p (.opened order) _ := .asked .opened rfl fun _ => .inr ⟨order, rfl⟩
    rw [hrequested] at hasked
    exact hasked
  | subscribe names f =>
    obtain ⟨-, h⟩ := Option.ite_none_right_eq_some.mp h
    obtain ⟨-, rfl⟩ := subscribe_eq_some.mp h
    exact .asked p.socket rfl .inl
  | message frame =>
    obtain ⟨⟨-, hturn⟩, h⟩ := Option.ite_none_right_eq_some.mp h
    cases h
    exact .message frame hturn
  | dispatch controls =>
    change p.dispatch controls = some q at h
    unfold Page.dispatch at h
    split at h
    · rename_i hturn
      split at h
      · rename_i hget
        cases h
        exact .ignored controls hturn hget
      · rename_i hget
        cases h
        exact .watched controls hturn hget
      · rename_i hget
        cases h
        exact .called controls hturn hget
    · cases h
  | returned =>
    simp only [step] at h
    split at h
    · rename_i hturn
      cases h
      exact .resumed _ (.inl rfl) (by rw [hturn]; rfl)
    · cases h
  | thrown =>
    simp only [step] at h
    split at h
    · cases h
      exact .thrown
    · cases h
  | handled =>
    obtain ⟨hturn, h⟩ := Option.ite_none_right_eq_some.mp h
    cases h
    exact .resumed _ (.inr rfl) (by rw [hturn]; rfl)
  | closeWebSocket =>
    obtain ⟨-, h⟩ := Option.ite_none_right_eq_some.mp h
    obtain rfl := Option.some.inj h
    unfold Page.closeWebSocket
    split
    · exact .socket p.socket (.inr rfl) id
    · exact .socket p.socket (.inr rfl) id
    all_goals exact .socket .closing (.inr rfl) (by simp)
  | closed =>
    obtain ⟨⟨hturn, -, -⟩, h⟩ := Option.ite_none_right_eq_some.mp h
    cases h
    exact .closed hturn
  | shim a =>
    obtain ⟨ha, h⟩ := Option.ite_none_right_eq_some.mp h
    obtain ⟨shim, hstep, rfl⟩ := Option.map_eq_some_iff.mp h
    exact .shim ha hstep

theorem channels_step (h : step p a = some q) (hclosed : a ≠ .closed) :
    q.channels = (assigned a).elim p.channels fun s => p.setCallbacks s.1 s.2 := by
  cases effect_of_step h with
  | asked socket ha => rw [ha]; rfl
  | message | ignored | watched | called | thrown | shim => rfl
  | resumed turn ha => rcases ha with rfl | rfl <;> rfl
  | socket socket ha => rcases ha with rfl | rfl <;> rfl
  | closed => exact absurd rfl hclosed

theorem has_step (h : step p a = some q) (hclosed : a ≠ .closed) {c : String}
    (hc : p.channels.has c = true) : q.channels.has c = true := by
  rw [channels_step h hclosed]
  cases assigned a with
  | none => exact hc
  | some s =>
    rw [Option.elim_some, GoMap.has, get_setCallbacks]
    split
    · rfl
    · exact hc

theorem has_requested (h : step p a = some q) (hclosed : a ≠ .closed) {c : String}
    (hc : c ∈ (requested p a).flatten) : q.channels.has c = true := by
  unfold requested at hc
  rw [channels_step h hclosed]
  cases ha : assigned a with
  | none => simp [ha] at hc
  | some s =>
    have hmem : c ∈ s.1 := by
      rw [ha] at hc
      dsimp only at hc
      split at hc
      · simp at hc
      · simpa using hc
    rw [Option.elim_some, GoMap.has, get_setCallbacks, if_pos hmem]
    rfl

/-- The function of a channel was there, or is given now. -/
theorem get_step (h : step p a = some q) {c : String} (hf : q.channels.get c = some f) :
    p.channels.get c = some f ∨ ∃ names, assigned a = some (names, f) ∧ c ∈ names := by
  by_cases hclosed : a = .closed
  · subst hclosed
    cases effect_of_step h with
    | asked socket ha => cases ha
    | resumed turn ha => simp at ha
    | socket socket ha => simp at ha
    | closed hturn =>
      rw [GoMap.get_empty] at hf
      cases hf
  · rw [channels_step h hclosed] at hf
    cases ha : assigned a with
    | none =>
      rw [ha] at hf
      exact .inl hf
    | some s =>
      rw [ha, Option.elim_some, get_setCallbacks] at hf
      split at hf
      · rename_i hc
        cases hf
        exact .inr ⟨s.1, rfl, hc⟩
      · exact .inl hf

theorem called_step (h : step p a = some q) {e : Callback F × ClientMessage} (he : e ∈ q.called) :
    e ∈ p.called ∨ p.channels.get e.2.channel = some e.1 := by
  cases effect_of_step h with
  | asked | message | ignored | resumed | thrown | socket | closed | shim => exact .inl he
  | watched controls hturn hget | called controls hturn hget =>
    rcases List.mem_append.mp he with he | he
    · exact .inl he
    · obtain rfl := List.mem_singleton.mp he
      exact .inr hget

theorem outgoing_step (h : step p a = some q) : q.outgoing = p.outgoing ++ requested p a := by
  cases effect_of_step h with
  | asked => rfl
  | resumed turn ha => rcases ha with rfl | rfl <;> exact (List.append_nil _).symm
  | socket socket ha => rcases ha with rfl | rfl <;> exact (List.append_nil _).symm
  | message | ignored | watched | called | thrown | closed | shim => exact (List.append_nil _).symm

theorem requested_opened {order : List String} (h : step p (.opened order) = some q) :
    requested p (.opened order) = [order] := by
  obtain ⟨⟨hsocket, -, -⟩, -⟩ := Option.ite_none_right_eq_some.mp h
  simp [requested, assigned, hsocket]

theorem requested_cases {rest : List (List String)} (h : step p a = some q)
    (hrequested : requested p a = names :: rest) : p.socket = .opened ∨ a = .opened names := by
  cases a with
  | opened order =>
    rw [requested_opened h] at hrequested
    cases hrequested
    exact .inr rfl
  | subscribe names' f =>
    obtain ⟨-, h⟩ := Option.ite_none_right_eq_some.mp h
    obtain ⟨hsocket | hsocket, -⟩ := subscribe_eq_some.mp h
    · exact .inl hsocket
    · simp [requested, assigned, hsocket] at hrequested
  | _ => cases hrequested

theorem opened_step (h : step p a = some q) (hq : q.socket = .opened) :
    p.socket = .opened ∨ ∃ order, a = .opened order := by
  cases effect_of_step h with
  | asked socket ha hsocket => exact hsocket hq
  | socket socket ha hsocket => exact .inl (hsocket hq)
  | message | ignored | watched | called | resumed | thrown | shim => exact .inl hq
  | closed => cases hq

/-- The messages for which a function was called, and those that are still to come. -/
def Page.seen (p : Page F) : List ClientMessage := p.called.map Prod.snd ++ p.turn.rest

/-- When every message has a function, and none of them throws, each is followed by a call. -/
theorem seen_step (h : step p a = some q) (hthrown : a ≠ .thrown)
    (hheard : ∀ msg ∈ p.turn.rest, p.channels.has msg.channel = true) :
    q.seen = p.seen ++ (frameOf a).flatten := by
  cases effect_of_step h with
  | @asked _ _ _ socket ha =>
    have hframe : frameOf a = [] := by cases a <;> first | rfl | cases ha
    simp [Page.seen, hframe]
  | message frame hturn => simp [Page.seen, frameOf, hturn, Turn.rest]
  | ignored controls hturn hget =>
    have hmsg := hheard _ (by rw [hturn]; exact List.mem_cons_self)
    simp [GoMap.has, hget] at hmsg
  | watched controls hturn | called controls hturn =>
    simp [Page.seen, frameOf, hturn, Turn.rest]
  | resumed turn ha hrest => rcases ha with rfl | rfl <;> simp [Page.seen, frameOf, hrest]
  | thrown => exact absurd rfl hthrown
  | socket socket ha => rcases ha with rfl | rfl <;> simp [Page.seen, frameOf]
  | closed hturn => simp [Page.seen, frameOf]
  | shim => simp [Page.seen, frameOf]

end Steps

end GoraddServe.PageMessages
