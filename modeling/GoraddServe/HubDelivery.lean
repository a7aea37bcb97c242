import GoraddServe.ClientPumps

/-!
# Messages reach their subscribers once and in order

A message the hub has taken is owed to every subscriber until it lies in the queue of that
client. What a connection has written, is batching, has in its queue and is still owed is,
in this order, what the hub has taken for it: each step moves a message from one of these
places to the next, and none loses one.
-/
namespace GoraddServe.HubDelivery
open BufferedChannels GoMaps MessageHub LabelledRuns HubLoop HubIndex ClientPumps

/-- The connection is the entry of its ID, and that ID listens to the channel. -/
def Entitled (h : WebSocketHub) (x : ClientPtr) (channel : String) : Prop :=
  h.clients.get (h.client x).clientID = some x ∧ Relates h.channels channel (h.client x).clientID

instance (h : WebSocketHub) (x : ClientPtr) (channel : String) : Decidable (Entitled h x channel) :=
  inferInstanceAs (Decidable (_ ∧ _))

/-- The range over `rest` will come to the connection. -/
def Awaits (h : WebSocketHub) (x : ClientPtr) (rest : Finset String) : Prop :=
  h.clients.get (h.client x).clientID = some x ∧ (h.client x).clientID ∈ rest

instance (h : WebSocketHub) (x : ClientPtr) (rest : Finset String) : Decidable (Awaits h x rest) :=
  inferInstanceAs (Decidable (_ ∧ _))

/-- The message that the hub has taken and still has to put into the queue of `x`. -/
def owed (s : HubState) (x : ClientPtr) : List ClientMessage :=
  match s.phase with
  | .select => []
  | .ranging msg rest => if Awaits s.hub x rest then [msg] else []
  | .sending msg p rest => if p = x ∨ Awaits s.hub x rest then [msg] else []

def queued (s : HubState) (x : ClientPtr) : List ClientMessage := (s.hub.client x).send.buf

/-- What an event of the hub adds for `x` to what is owed. -/
def accepted (h : WebSocketHub) (x : ClientPtr) : Event → List ClientMessage
  | .send msg => if Entitled h x msg.channel then [msg] else []
  | _ => []

/-- The client at `client.send <- msg` is the entry of an ID that the range is past. -/
def SendsToEntry (s : HubState) : Prop :=
  ∀ msg p rest, s.phase = .sending msg p rest →
    s.hub.clients.get (s.hub.client p).clientID = some p ∧ (s.hub.client p).clientID ∉ rest

variable {s t : HubState} {e : Event} {x : ClientPtr}

theorem sendsToEntry_step (hi : Indexed s.hub) (hs : SendsToEntry s) (h : step s e = some t) :
    SendsToEntry t := by
  cases e with
  | register p order =>
    obtain ⟨-, -, rfl⟩ := step_register.mp h
    exact fun _ _ _ hp => by cases hp
  | unregister p order =>
    obtain ⟨-, -, rfl⟩ := step_unregister.mp h
    exact fun _ _ _ hp => by cases hp
  | subscribe sub =>
    obtain ⟨-, rfl⟩ := step_subscribe.mp h
    exact fun _ _ _ hp => by cases hp
  | send msg =>
    obtain ⟨-, -, ⟨_, -, hphase⟩ | ⟨-, hphase⟩⟩ := step_send.mp h <;>
      exact fun _ _ _ hp => by rw [hphase] at hp; cases hp
  | visit i =>
    obtain ⟨msg, rest, -, -, hhub, ⟨p, hp, hphase⟩ | ⟨-, hphase⟩⟩ := step_visit.mp h
    · intro msg' q rest' hq
      rw [hphase] at hq
      cases hq
      have hid := hi.entry i p hp
      rw [hhub, hid]
      exact ⟨hp, Finset.notMem_erase i rest⟩
    · exact fun _ _ _ hp => by rw [hphase] at hp; cases hp
  | deliver =>
    obtain ⟨_, _, _, -, _, -, -, rfl⟩ := step_deliver.mp h
    exact fun _ _ _ hp => by cases hp
  | leave =>
    obtain ⟨_, -, rfl⟩ := step_leave.mp h
    exact fun _ _ _ hp => by cases hp
  | drain p =>
    obtain ⟨_, queue, -, rfl⟩ := step_drain.mp h
    intro msg q rest hq
    simpa using hs msg q rest hq

theorem awaits_erase_of_entry {hub : WebSocketHub} {rest : Finset String} {i : String}
    {p : ClientPtr} (hi : Indexed hub) (hp : hub.clients.get i = some p) (hmem : i ∈ rest) :
    (p = x ∨ Awaits hub x (rest.erase i)) ↔ Awaits hub x rest := by
  unfold Awaits
  constructor
  · rintro (rfl | ⟨hx, hmem'⟩)
    · have hid := hi.entry i p hp
      exact ⟨hid ▸ hp, hid ▸ hmem⟩
    · exact ⟨hx, Finset.mem_of_mem_erase hmem'⟩
  · rintro ⟨hx, hmem'⟩
    by_cases hid : (hub.client x).clientID = i
    · left
      rw [hid, hp] at hx
      exact Option.some.inj hx
    · exact Or.inr ⟨hx, Finset.mem_erase.mpr ⟨hid, hmem'⟩⟩

theorem awaits_erase_of_none {hub : WebSocketHub} (rest : Finset String) {i : String}
    (hnone : hub.clients.get i = none) :
    Awaits hub x (rest.erase i) ↔ Awaits hub x rest := by
  unfold Awaits
  refine and_congr_right fun hx => ?_
  have hid : (hub.client x).clientID ≠ i := by
    rintro rfl
    rw [hnone] at hx
    cases hx
  simp [hid]

/-- Every event but a receive from a queue keeps what is queued and owed, in this order, and
adds the message it takes to what is owed. -/
theorem step_accounts (hi : Indexed s.hub) (hs : SendsToEntry s) (h : step s e = some t)
    (hdrain : ∀ p, e ≠ .drain p) :
    queued t x ++ owed t x = queued s x ++ owed s x ++ accepted s.hub x e := by
  cases e with
  | register p order =>
    obtain ⟨hphase, -, rfl⟩ := step_register.mp h
    simp [queued, owed, accepted, hphase, WebSocketHub.register_frame]
  | unregister p order =>
    obtain ⟨hphase, -, rfl⟩ := step_unregister.mp h
    simp [queued, owed, accepted, hphase, WebSocketHub.unregisterClient_frame]
  | subscribe sub =>
    obtain ⟨hphase, rfl⟩ := step_subscribe.mp h
    simp [queued, owed, accepted, hphase, WebSocketHub.subscribeChannel_client]
  | send msg =>
    obtain ⟨hphase, hhub, ⟨ids, hids, hphase'⟩ | ⟨hnone, hphase'⟩⟩ := step_send.mp h
    · have haw : Awaits s.hub x ids ↔ Entitled s.hub x msg.channel := by
        simp [Awaits, Entitled, Relates, hids]
      simp [queued, owed, accepted, hphase, hphase', hhub, haw]
    · have hne : ¬Entitled s.hub x msg.channel := by simp [Entitled, Relates, hnone]
      simp [queued, owed, accepted, hphase, hphase', hhub, hne]
  | visit i =>
    obtain ⟨msg, rest, hphase, hmem, hhub, ⟨p, hp, hphase'⟩ | ⟨hnone, hphase'⟩⟩ := step_visit.mp h
    · -- the entry of `i` moves from the keys still to come to the send
      have haw := awaits_erase_of_entry (x := x) hi hp hmem
      simp [queued, owed, accepted, hphase, hphase', hhub, haw]
    · have haw := awaits_erase_of_none (x := x) rest hnone
      simp [queued, owed, accepted, hphase, hphase', hhub, haw]
  | deliver =>
    obtain ⟨msg, p, rest, hphase, queue, -, hqueue, rfl⟩ := step_deliver.mp h
    obtain ⟨-, hpast⟩ := hs msg p rest hphase
    have haw : Awaits (s.hub.setQueue p queue) x rest ↔ Awaits s.hub x rest := by simp [Awaits]
    by_cases hx : x = p
    · subst hx
      have hno : ¬Awaits s.hub x rest := fun ha => hpast ha.2
      simp [queued, owed, accepted, hphase, WebSocketHub.setQueue_send, hqueue, haw, hno]
    · have hx' : p ≠ x := fun h => hx h.symm
      simp [queued, owed, accepted, hphase, WebSocketHub.setQueue_send, hx, hx', haw]
  | leave =>
    obtain ⟨msg, hphase, rfl⟩ := step_leave.mp h
    simp [queued, owed, accepted, hphase, Awaits]
  | drain p => exact absurd rfl (hdrain p)

theorem drain_accounts {p : ClientPtr} (h : step s (.drain p) = some t) :
    (∃ msg, queued s p = msg :: queued t p) ∧ (∀ x, x ≠ p → queued t x = queued s x) ∧
      ∀ x, owed t x = owed s x := by
  obtain ⟨msg, queue, hqueue, rfl⟩ := step_drain.mp h
  refine ⟨⟨msg, ?_⟩, ?_, ?_⟩
  · simp [queued, WebSocketHub.setQueue_send, hqueue]
  · intro x hx
    simp [queued, WebSocketHub.setQueue_send, hx]
  · intro x
    have haw : ∀ rest, Awaits (s.hub.setQueue p queue) x rest ↔ Awaits s.hub x rest :=
      fun rest => by simp [Awaits]
    simp [owed, haw]

/-- What an event puts into the queue of `x`. -/
def deliveredBy (x : ClientPtr) (s : HubState) : Event → List ClientMessage
  | .deliver =>
    match s.phase with
    | .sending msg p _ => if p = x then [msg] else []
    | _ => []
  | _ => []

theorem queued_step (h : step s e = some t) (hdrain : e ≠ .drain x) :
    queued t x = queued s x ++ deliveredBy x s e := by
  cases e with
  | register p order =>
    obtain ⟨-, -, rfl⟩ := step_register.mp h
    simp [queued, deliveredBy, WebSocketHub.register_frame]
  | unregister p order =>
    obtain ⟨-, -, rfl⟩ := step_unregister.mp h
    simp [queued, deliveredBy, WebSocketHub.unregisterClient_frame]
  | subscribe sub =>
    obtain ⟨-, rfl⟩ := step_subscribe.mp h
    simp [queued, deliveredBy, WebSocketHub.subscribeChannel_client]
  | send msg => simp [queued, deliveredBy, (step_send.mp h).2.1]
  | visit i =>
    obtain ⟨_, _, -, -, hhub, -⟩ := step_visit.mp h
    simp [queued, deliveredBy, hhub]
  | deliver =>
    obtain ⟨msg, p, rest, hphase, queue, -, hqueue, rfl⟩ := step_deliver.mp h
    by_cases hx : x = p
    · subst hx
      simp [queued, deliveredBy, hphase, WebSocketHub.setQueue_send, hqueue]
    · have hp : p ≠ x := fun hp => hx hp.symm
      simp [queued, deliveredBy, hphase, WebSocketHub.setQueue_send, hx, hp]
  | leave =>
    obtain ⟨_, -, rfl⟩ := step_leave.mp h
    simp [queued, deliveredBy]
  | drain p =>
    obtain ⟨_, queue, -, rfl⟩ := step_drain.mp h
    have hx : x ≠ p := fun hx => hdrain (hx ▸ rfl)
    simp [queued, deliveredBy, WebSocketHub.setQueue_send, hx]

theorem queued_grows (h : step s e = some t) (hdrain : e ≠ .drain x) :
    queued s x <+: queued t x := ⟨_, (queued_step h hdrain).symm⟩

theorem step_delivers (hi : Indexed s.hub) (hs : SendsToEntry s) (h : step s e = some t) :
    deliveredBy x s e ++ owed t x = owed s x ++ accepted s.hub x e := by
  by_cases hdrain : ∃ p, e = .drain p
  · obtain ⟨p, rfl⟩ := hdrain
    simp [deliveredBy, accepted, (drain_accounts h).2.2]
  · have hsum := step_accounts (x := x) hi hs h fun p hp => hdrain ⟨p, hp⟩
    rw [queued_step h fun hp => hdrain ⟨x, hp⟩, List.append_assoc, List.append_assoc] at hsum
    exact List.append_cancel_left hsum

/-- What the hub puts into the queue of `x` in a run. -/
def delivered (x : ClientPtr) (hist : List (HubState × Event)) : List ClientMessage :=
  hist.flatMap fun e => deliveredBy x e.1 e.2

theorem run_delivers {hist : List (HubState × Event)} (run : Run HubLoop.step s hist t)
    (hi : Indexed s.hub) (hs : SendsToEntry s) :
    delivered x hist ++ owed t x =
      owed s x ++ hist.flatMap fun e => accepted e.1.hub x e.2 := by
  refine (run.history_of (C := fun _ _ => True) (J := fun hist t => Indexed t.hub ∧
    SendsToEntry t ∧ delivered x hist ++ owed t x =
      owed s x ++ hist.flatMap fun e => accepted e.1.hub x e.2) ?_ (fun _ _ => trivial)
    ⟨hi, hs, by simp [delivered]⟩).2.2
  intro hist t e u _ ⟨hi, hs, hsum⟩ _ h
  refine ⟨indexed_step hi h, sendsToEntry_step hi hs h, ?_⟩
  have hstep := step_delivers (x := x) hi hs h
  calc delivered x (hist ++ [(t, e)]) ++ owed u x
      = delivered x hist ++ (deliveredBy x t e ++ owed u x) := by simp [delivered]
    _ = delivered x hist ++ owed t x ++ accepted t.hub x e := by rw [hstep, List.append_assoc]
    _ = owed s x ++ (hist ++ [(t, e)]).flatMap fun e => accepted e.1.hub x e.2 := by
      rw [hsum, List.flatMap_append, List.append_assoc]
      simp

theorem sendsToEntry_run {ids : ClientPtr → String} {hist : List (HubState × Event)} {s : HubState}
    (run : Run HubLoop.step (HubLoop.init ids) hist s) : SendsToEntry s := by
  refine (run.invariant (I := fun s => Indexed s.hub ∧ SendsToEntry s) ?_ ?_).2
  · exact fun s e t hs h => ⟨indexed_step hs.1 h, sendsToEntry_step hs.1 hs.2 h⟩
  · exact ⟨indexed_init ids, fun _ _ _ hp => by cases hp⟩

section Pumps

variable {s t : System} {a : Action} {x : ClientPtr}

/-- What `writePump` has written, flattened, followed by the array it is building. -/
def sentOut (s : System) (x : ClientPtr) : List ClientMessage :=
  (s.written x).flatten ++ (s.writer x).batch

/-- What a pump receives from the queue of `x`. -/
def received (s : System) (x : ClientPtr) : Action → List ClientMessage
  | .take p | .drain p => if p = x then (s.queue p).take 1 else []
  | _ => []

private theorem sentOut_setWriter (p : ClientPtr) (w : WritePump) :
    sentOut (s.setWriter p w) x =
      if p = x then (s.written x).flatten ++ w.batch else sentOut s x := by
  unfold sentOut
  split
  · rename_i hp
    simp [hp]
  · rename_i hp
    have hp' : x ≠ p := fun h => hp h.symm
    simp [hp']

private theorem accounts_setWriter {p : ClientPtr} {w : WritePump}
    (hbatch : w.batch = (s.writer p).batch ++ received s p a)
    (hother : p ≠ x → received s x a = []) :
    sentOut (s.setWriter p w) x = sentOut s x ++ received s x a := by
  rw [sentOut_setWriter]
  split
  · rename_i hp
    subst hp
    rw [hbatch, sentOut, List.append_assoc]
  · rename_i hp
    rw [hother hp, List.append_nil]

/-- A writer only passes on what it has received, unless its connection fails. -/
theorem pump_accounts (hs : Unstarted s) (h : pump s a = some t) (hok : a ≠ .writeError x) :
    sentOut t x = sentOut s x ++ received s x a := by
  cases a with
  | register p order =>
    obtain ⟨hr, rfl⟩ := pump_register.mp h
    have hwriter : (s.setReader p .reading).writer p = .unstarted := hs p hr
    have hmove : sentOut ((s.setReader p .reading).setWriter p .waiting) x =
        sentOut (s.setReader p .reading) x ++
          received (s.setReader p .reading) x (.register p order) :=
      accounts_setWriter (by simp [received, hwriter, WritePump.batch]) fun _ => rfl
    exact hmove
  | unregister | subscribe | forward | read | readError | ping | send | visit | deliver | leave =>
    obtain ⟨reader, rfl⟩ := pump_readsOnly h rfl
    exact (List.append_nil _).symm
  | take p =>
    obtain ⟨hw, message, rest, hq, rfl⟩ := pump_take.mp h
    exact accounts_setWriter (by simp [received, hw, hq, WritePump.batch]) fun hp => if_neg hp
  | count p =>
    obtain ⟨message, hw, rfl⟩ := pump_count.mp h
    exact accounts_setWriter (by simp [received, hw, WritePump.batch]) fun _ => rfl
  | drain p =>
    obtain ⟨messages, n, message, rest, hw, hq, rfl⟩ := pump_drain.mp h
    exact accounts_setWriter (by simp [received, hw, hq, WritePump.batch]) fun hp => if_neg hp
  | write p =>
    obtain ⟨messages, hw, rfl⟩ := pump_write.mp h
    by_cases hp : x = p
    · subst hp
      simp [sentOut, received, hw, WritePump.batch]
    · simp [sentOut, received, hp]
  | writeError p =>
    obtain ⟨messages, hw, rfl⟩ := pump_writeError.mp h
    have hp : p ≠ x := fun h => hok (h ▸ rfl)
    simp [sentOut_setWriter, received, hp]
  | pingError p =>
    obtain ⟨hw, rfl⟩ := pump_pingError.mp h
    exact accounts_setWriter (by simp [received, hw, WritePump.batch]) fun _ => rfl

/-- The message of `h.send` that an action hands to the hub. -/
def sentMessage : Action → Option ClientMessage
  | .send msg | .forward _ msg => some msg
  | _ => none

/-- The messages the hub took from `h.send` while `x` was the entry of its ID and that ID
listened to the channel of the message, in the order in which it took them. -/
def due (x : ClientPtr) (hist : List (System × Action)) : List ClientMessage :=
  hist.filterMap fun e =>
    (sentMessage e.2).filter fun msg => Entitled e.1.loop.hub x msg.channel

theorem due_concat (hist : List (System × Action)) :
    due x (hist ++ [(s, a)]) =
      due x hist ++ ((hubEvent s a).map (accepted s.loop.hub x)).getD [] := by
  unfold due
  rw [List.filterMap_append]
  congr 1
  cases a <;> simp [sentMessage, hubEvent, accepted, Option.filter]
  all_goals split <;> simp_all

theorem system_accounts (hi : Indexed s.loop.hub) (hentry : SendsToEntry s.loop)
    (hs : Unstarted s) (h : step s a = some t) (hok : a ≠ .writeError x) :
    sentOut t x ++ (queued t.loop x ++ owed t.loop x) =
      sentOut s x ++ (queued s.loop x ++ owed s.loop x) ++
        ((hubEvent s a).map (accepted s.loop.hub x)).getD [] := by
  have hpump : sentOut t x = sentOut s x ++ received s x a := by
    have hp := pump_accounts hs (step_eq_some.mp h).1 hok
    exact hp
  have hloop := step_loop h
  rw [hpump]
  cases he : hubEvent s a with
  | none =>
    rw [he] at hloop
    have hnone : received s x a = [] := by cases a <;> simp_all [hubEvent, received]
    simp [hnone, show t.loop = s.loop from hloop]
  | some e =>
    rw [he] at hloop
    by_cases hdrain : ∃ p, e = .drain p
    · -- the message that leaves the queue is the one the writer receives
      obtain ⟨p, rfl⟩ := hdrain
      obtain ⟨⟨msg, hmsg⟩, hother, howed⟩ := drain_accounts hloop
      have hrec : received s x a = if p = x then (s.queue p).take 1 else [] := by
        cases a <;> simp_all [hubEvent, received]
      rw [howed, hrec]
      split
      · rename_i hp
        subst hp
        have hq : s.queue p = msg :: queued t.loop p := hmsg
        simp [hq, hmsg, accepted]
      · rename_i hp
        simp [hother x fun h => hp h.symm, accepted]
    · have hdrain' : ∀ p, e ≠ .drain p := fun p hp => hdrain ⟨p, hp⟩
      have hrec : received s x a = [] := by
        cases a with
        | take p => exact absurd (Option.some.inj he).symm (hdrain' p)
        | drain p => exact absurd (Option.some.inj he).symm (hdrain' p)
        | _ => rfl
      simp [hrec, step_accounts hi hentry hloop hdrain', List.append_assoc]

theorem accounts_run {ids : ClientPtr → String} {hist : List (System × Action)}
    (run : Run ClientPumps.step (ClientPumps.init ids) hist s)
    (hok : ∀ e ∈ hist, e.2 ≠ .writeError x) :
    sentOut s x ++ (queued s.loop x ++ owed s.loop x) = due x hist := by
  refine run.history_of (C := fun _ a => a ≠ .writeError x)
    (J := fun hist s => sentOut s x ++ (queued s.loop x ++ owed s.loop x) = due x hist)
    (fun hist s a t run ih hok h => ?_) hok rfl
  have hstep := system_accounts (indexed_system run) (sendsToEntry_run (run_loop run))
    (unstarted_run run) h hok
  rw [hstep, ih, due_concat]

/-- The loop of `writePump` over `n := len(c.send)` asks for no more than the queue holds. -/
def DrainReady (s : System) : Prop :=
  ∀ p messages n, s.writer p = .draining messages n → n ≤ (s.queue p).length

private theorem queue_le (h : step s a = some t) {p : ClientPtr}
    (ha : hubEvent s a ≠ some (.drain p)) : (s.queue p).length ≤ (t.queue p).length := by
  have hloop := step_loop h
  cases he : hubEvent s a with
  | none =>
    rw [he] at hloop
    rw [System.queue, System.queue, show t.loop = s.loop from hloop]
  | some e =>
    rw [he] at hloop
    have hne : e ≠ .drain p := fun h => ha (by rw [he, h])
    exact (queued_grows hloop hne).length_le

private theorem drainReady_setWriter (hs : DrainReady s) {q p : ClientPtr} {w : WritePump}
    {messages : List ClientMessage} {n : ℕ}
    (hw : (s.setWriter q w).writer p = .draining messages n)
    (hq : w = .draining messages n → n ≤ (s.queue q).length) : n ≤ (s.queue p).length := by
  by_cases hp : p = q
  · subst hp
    exact hq (by simpa using hw)
  · exact hs p messages n (by simpa [hp] using hw)

private theorem drainReady_pump (hs : DrainReady s) (h : pump s a = some t)
    (hdrain : ∀ q, a ≠ .drain q) {p : ClientPtr} {messages : List ClientMessage} {n : ℕ}
    (hw : t.writer p = .draining messages n) :
    hubEvent s a ≠ some (.drain p) ∧ n ≤ (s.queue p).length := by
  cases a with
  | register q order =>
    obtain ⟨-, rfl⟩ := pump_register.mp h
    refine ⟨by simp [hubEvent], ?_⟩
    exact drainReady_setWriter (s := s) hs (q := q) (w := .waiting) hw (by simp)
  | unregister | subscribe | forward | read | readError | ping | send | visit | deliver | leave =>
    obtain ⟨reader, rfl⟩ := pump_readsOnly h rfl
    exact ⟨by simp [hubEvent], hs p messages n hw⟩
  | take q =>
    obtain ⟨-, message, _, -, rfl⟩ := pump_take.mp h
    have hq : q ≠ p := by
      rintro rfl
      simp at hw
    exact ⟨by simp [hubEvent, hq], drainReady_setWriter hs hw (by simp)⟩
  | count q =>
    obtain ⟨message, -, rfl⟩ := pump_count.mp h
    exact ⟨by simp [hubEvent], drainReady_setWriter hs hw (by simp +contextual [eq_comm])⟩
  | drain q => exact absurd rfl (hdrain q)
  | write q =>
    obtain ⟨_, -, rfl⟩ := pump_write.mp h
    refine ⟨by simp [hubEvent], ?_⟩
    exact drainReady_setWriter (s := s) hs (q := q) (w := .waiting) hw (by simp)
  | writeError q =>
    obtain ⟨_, -, rfl⟩ := pump_writeError.mp h
    exact ⟨by simp [hubEvent], drainReady_setWriter hs hw (by simp)⟩
  | pingError q =>
    obtain ⟨-, rfl⟩ := pump_pingError.mp h
    exact ⟨by simp [hubEvent], drainReady_setWriter hs hw (by simp)⟩

theorem drainReady_step (hs : DrainReady s) (h : step s a = some t) : DrainReady t := by
  intro p messages n hw
  have hpump := (step_eq_some.mp h).1
  have hloop := step_loop h
  by_cases hdrain : ∃ q, a = .drain q
  · -- one message fewer in the queue, and one fewer to come
    obtain ⟨q, rfl⟩ := hdrain
    obtain ⟨⟨msg, hmsg⟩, hother, -⟩ := drain_accounts hloop
    obtain ⟨messages', n', message, rest, hq, -, ht⟩ := pump_drain.mp hpump
    have hwriter : t.writer = Function.update s.writer q (.draining (messages' ++ [message]) n') :=
      congrArg System.writer ht
    rw [hwriter] at hw
    by_cases hpq : p = q
    · subst hpq
      have hlen : (s.queue p).length = (t.queue p).length + 1 := congrArg List.length hmsg
      have hn := hs p messages' (n' + 1) hq
      simp only [Function.update_self, WritePump.draining.injEq] at hw
      omega
    · rw [Function.update_of_ne hpq] at hw
      have hlen : (t.queue p).length = (s.queue p).length := congrArg List.length (hother p hpq)
      rw [hlen]
      exact hs p messages n hw
  · obtain ⟨hev, hn⟩ := drainReady_pump hs hpump (fun q hq => hdrain ⟨q, hq⟩) hw
    exact hn.trans (queue_le h hev)

theorem drainReady_run {ids : ClientPtr → String} {hist : List (System × Action)}
    (run : Run ClientPumps.step (ClientPumps.init ids) hist s) : DrainReady s :=
  run.invariant (I := DrainReady) (fun _ _ _ hs h => drainReady_step hs h)
    (fun _ _ _ hw => by cases hw)

/-- Whenever the hub is at its `select`, what a connection has been sent, is about to be sent
and has in its queue are exactly the messages due to it, in the order of the hub; and the
loop of its `writePump` that empties the queue never waits. -/
theorem exact_ordered_delivery {ids : ClientPtr → String} {hist : List (System × Action)}
    {s : System} (run : Run ClientPumps.step (ClientPumps.init ids) hist s) (x : ClientPtr)
    (hok : ∀ e ∈ hist, e.2 ≠ .writeError x) :
    (s.loop.phase = .select →
      (s.written x).flatten ++ (s.writer x).batch ++ s.queue x = due x hist) ∧
    ∀ messages n, s.writer x = .draining messages (n + 1) →
      ∃ t, ClientPumps.step s (.drain x) = some t := by
  constructor
  · intro hselect
    have h := accounts_run run hok
    simpa [owed, hselect, sentOut, queued, System.queue] using h
  · intro messages n hw
    have hlen := drainReady_run run x messages (n + 1) hw
    cases hq : (s.loop.hub.client x).send.receive with
    | none =>
      have hzero : (s.queue x).length = 0 := Channel.receive_eq_none.mp hq
      omega
    | some r =>
      have hbuf : s.queue x = r.1 :: r.2.buf := Channel.receive_eq_some.mp hq
      refine ⟨{ s.setWriter x (.draining (messages ++ [r.1]) n) with
        loop := ⟨s.loop.hub.setQueue x r.2, s.loop.phase⟩ }, step_eq_some.mpr ⟨?_, ?_⟩⟩
      · exact pump_drain.mpr ⟨_, _, _, _, hw, hbuf, rfl⟩
      · exact step_drain.mpr ⟨_, _, hbuf, rfl⟩

/-- Two messages go out in one array while a third one comes in. -/
def batching : List Action :=
  [.register 0 [], .read 0 ⟨["news"], "", ""⟩, .subscribe 0 "news",
    .send ⟨"news", "a"⟩, .visit "id", .deliver, .leave,
    .send ⟨"news", "b"⟩, .visit "id", .deliver, .leave, .take 0, .count 0,
    .send ⟨"news", "c"⟩, .visit "id", .deliver, .leave, .drain 0, .write 0]

private theorem batching_runs :
    (exec ClientPumps.step (ClientPumps.init fun _ => "id") batching).isSome = true := by
  decide

theorem exact_ordered_delivery_batching :
    ∃ hist s, Run ClientPumps.step (ClientPumps.init fun _ => "id") hist s ∧
      s.written 0 = [[⟨"news", "a"⟩, ⟨"news", "b"⟩]] ∧ s.queue 0 = [⟨"news", "c"⟩] ∧
      due 0 hist = [⟨"news", "a"⟩, ⟨"news", "b"⟩, ⟨"news", "c"⟩] := by
  obtain ⟨hist, run, hlabels⟩ := run_final batching_runs
  have hok : ∀ e ∈ hist, e.2 ≠ .writeError 0 := by
    intro e he
    have hmem : e.2 ∈ batching := hlabels ▸ List.mem_map_of_mem he
    rintro heq
    simp [heq, batching] at hmem
  have hdue := (exact_ordered_delivery run 0 hok).1 (by decide)
  exact ⟨hist, _, run, by decide, by decide, hdue.symm⟩

end Pumps

end GoraddServe.HubDelivery
