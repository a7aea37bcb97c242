import GoraddServe.HubDelivery

/-!
# A hub that waits for a dead connection

`client.send <- msg` has no way out when the queue of the client is full and its `writePump`
has ended. A connection is doomed from the step on that leaves it a message which its queue
will never take: the end of a writer whose queue is full while a message is owed to it, or
a message taken for a client whose writer is gone and whose queue is full. No step undoes
this, and no other step leads to it.
-/
namespace GoraddServe.HubBlocking
open BufferedChannels GoMaps MessageHub LabelledRuns HubLoop HubIndex ClientPumps HubDelivery

/-- The hub is at `client.send <- msg` on a full queue that nobody drains. -/
def Stuck (s : System) : Prop :=
  ∃ msg p rest, s.loop.phase = .sending msg p rest ∧ (s.queue p).length = sendCapacity ∧
    s.writer p = .ended

/-- The hub still has to deliver a message to a full queue that nobody drains. -/
structure Doomed (x : ClientPtr) (s : System) : Prop where
  ended : s.writer x = .ended
  full : (s.queue x).length = sendCapacity
  owed : owed s.loop x ≠ []

/-- The hub takes a message for `x`. -/
def TakenFor (x : ClientPtr) (s : System) (a : Action) : Prop :=
  ∃ msg, sentMessage a = some msg ∧ Entitled s.loop.hub x msg.channel

/-- A writer ends only when nothing is owed to its client or the queue has room, and the hub
takes a message only when the queues of all listeners without a writer have room. -/
structure Careful (s : System) (a : Action) : Prop where
  ends : ∀ x, a = .writeError x ∨ a = .pingError x → owed s.loop x ≠ [] →
    (s.queue x).length < sendCapacity
  takes : ∀ x, TakenFor x s a → s.writer x = .ended → (s.queue x).length < sendCapacity

variable {s t : System} {a : Action} {x p : ClientPtr} {hist : List (System × Action)}

theorem Stuck.doomed (h : Stuck s) : ∃ x, Doomed x s := by
  obtain ⟨msg, p, rest, hphase, hfull, hended⟩ := h
  exact ⟨p, hended, hfull, by simp [owed, hphase]⟩

theorem queue_length_le : (s.queue x).length ≤ sendCapacity := (s.loop.hub.client x).send.bounded

theorem owed_length_le (s : HubState) (x : ClientPtr) : (owed s x).length ≤ 1 := by
  unfold owed
  cases s.phase with
  | select => simp
  | ranging msg rest =>
    dsimp only
    split <;> simp
  | sending msg p rest =>
    dsimp only
    split <;> simp

theorem Doomed.not_select (h : Doomed x s) : s.loop.phase ≠ .select := by
  intro hselect
  exact h.owed (by simp [HubDelivery.owed, hselect])

private theorem ended_setWriter {w : WritePump} (hw : w ≠ .ended) (hp : s.writer p ≠ .ended) :
    (s.setWriter p w).writer x = .ended ↔ s.writer x = .ended := by
  by_cases hx : x = p
  · subst hx
    simp [hw, hp]
  · simp [hx]

/-- A writer ends when its connection fails, and for good. -/
theorem pump_ended (hs : Unstarted s) (h : pump s a = some t) :
    t.writer x = .ended ↔ s.writer x = .ended ∨ a = .writeError x ∨ a = .pingError x := by
  cases a with
  | register p order =>
    obtain ⟨hr, rfl⟩ := pump_register.mp h
    simpa using ended_setWriter (s := s) (p := p) (x := x) (by simp) (by simp [hs p hr])
  | unregister | subscribe | forward | read | readError | ping | send | visit | deliver | leave =>
    obtain ⟨reader, rfl⟩ := pump_readsOnly h rfl
    simp
  | take p =>
    obtain ⟨hw, _, _, -, rfl⟩ := pump_take.mp h
    simpa using ended_setWriter (by simp) (by simp [hw])
  | count p =>
    obtain ⟨_, hw, rfl⟩ := pump_count.mp h
    simpa using ended_setWriter (by simp) (by simp [hw])
  | drain p =>
    obtain ⟨_, _, _, _, hw, -, rfl⟩ := pump_drain.mp h
    simpa using ended_setWriter (by simp) (by simp [hw])
  | write p =>
    obtain ⟨_, hw, rfl⟩ := pump_write.mp h
    simpa using ended_setWriter (s := s) (p := p) (x := x) (w := .waiting) (by simp) (by simp [hw])
  | writeError p =>
    obtain ⟨_, hw, rfl⟩ := pump_writeError.mp h
    by_cases hx : x = p
    · simp [hx]
    · simp [hx, eq_comm]
  | pingError p =>
    obtain ⟨hw, rfl⟩ := pump_pingError.mp h
    by_cases hx : x = p
    · simp [hx]
    · simp [hx, eq_comm]

/-- The length of what is queued for `x` and owed to it. -/
def backlog (s : System) (x : ClientPtr) : ℕ := (s.queue x).length + (owed s.loop x).length

theorem hubEvent_eq_send {msg : ClientMessage} :
    hubEvent s a = some (.send msg) ↔ sentMessage a = some msg := by
  cases a <;> simp [hubEvent, sentMessage]

theorem not_takenFor (h : ∀ msg, hubEvent s a ≠ some (.send msg)) : ¬TakenFor x s a := by
  rintro ⟨msg, hmsg, -⟩
  exact h msg (hubEvent_eq_send.mpr hmsg)

theorem accepted_eq_nil {e : Event} (he : hubEvent s a = some e) (h : ¬TakenFor x s a) :
    accepted s.loop.hub x e = [] := by
  cases e with
  | send msg =>
    have hne : ¬Entitled s.loop.hub x msg.channel :=
      fun hent => h ⟨msg, hubEvent_eq_send.mp he, hent⟩
    simp [accepted, hne]
  | _ => rfl

private theorem not_ended_of_receive (h : pump s a = some t) {p : ClientPtr}
    (he : hubEvent s a = some (.drain p)) : t.writer p ≠ .ended := by
  cases a with
  | take q =>
    obtain rfl : q = p := by simpa [hubEvent] using he
    obtain ⟨-, _, _, -, rfl⟩ := pump_take.mp h
    simp
  | drain q =>
    obtain rfl : q = p := by simpa [hubEvent] using he
    obtain ⟨_, _, _, _, -, -, rfl⟩ := pump_drain.mp h
    simp
  | _ => simp [hubEvent] at he

/-- Without a writer only a message that the hub takes changes the backlog. -/
theorem backlog_step (hi : Indexed s.loop.hub) (hentry : SendsToEntry s.loop)
    (h : ClientPumps.step s a = some t) (hx : t.writer x = .ended) :
    (TakenFor x s a ∧ owed s.loop x = [] ∧ backlog t x = (s.queue x).length + 1) ∨
      (¬TakenFor x s a ∧ backlog t x = backlog s x) := by
  have hpump := (step_eq_some.mp h).1
  have hloop := step_loop h
  cases he : hubEvent s a with
  | none =>
    rw [he] at hloop
    have hsame : backlog t x = backlog s x := by
      rw [backlog, backlog, System.queue, System.queue, show t.loop = s.loop from hloop]
    exact .inr ⟨not_takenFor (fun msg hmsg => by cases he.symm.trans hmsg), hsame⟩
  | some e =>
    rw [he] at hloop
    by_cases hdrain : ∃ p, e = .drain p
    · obtain ⟨p, rfl⟩ := hdrain
      have hp : x ≠ p := by
        rintro rfl
        exact not_ended_of_receive hpump he hx
      obtain ⟨-, hother, howed⟩ := drain_accounts hloop
      have hq : t.queue x = s.queue x := hother x hp
      refine .inr ⟨not_takenFor (fun msg hmsg => by cases he.symm.trans hmsg), ?_⟩
      rw [backlog, backlog, hq, howed]
    · have hsum := step_accounts (x := x) hi hentry hloop fun p hp => hdrain ⟨p, hp⟩
      have hlength : backlog t x = backlog s x + (accepted s.loop.hub x e).length := by
        simpa [backlog, queued, System.queue, Nat.add_assoc] using congrArg List.length hsum
      by_cases htaken : TakenFor x s a
      · obtain ⟨msg, hmsg, hent⟩ := htaken
        obtain rfl : .send msg = e := Option.some.inj ((hubEvent_eq_send.mpr hmsg).symm.trans he)
        have hnone : owed s.loop x = [] := by simp [owed, (step_send.mp hloop).1]
        refine .inl ⟨⟨msg, hmsg, hent⟩, hnone, ?_⟩
        rw [hlength, backlog, hnone]
        simp [accepted, hent]
      · have hnone := accepted_eq_nil he htaken
        exact .inr ⟨htaken, by simp [hlength, hnone]⟩

theorem doomed_step (hi : Indexed s.loop.hub) (hentry : SendsToEntry s.loop) (hs : Unstarted s)
    (hd : Doomed x s) (h : ClientPumps.step s a = some t) : Doomed x t := by
  have hended : t.writer x = .ended :=
    (pump_ended hs (step_eq_some.mp h).1).mpr (.inl hd.ended)
  have hone := List.length_pos_iff.mpr hd.owed
  have hone' := owed_length_le t.loop x
  have hfull := hd.full
  have hfull' := queue_length_le (s := t) (x := x)
  rcases backlog_step hi hentry h hended with ⟨-, hnone, -⟩ | ⟨-, hsum⟩
  · exact absurd hnone hd.owed
  · unfold backlog at hsum
    exact ⟨hended, by omega, List.ne_nil_of_length_pos (by omega)⟩

theorem step_fails (h : ClientPumps.step s a = some t)
    (hfails : a = .writeError x ∨ a = .pingError x) : t.loop = s.loop := by
  rcases hfails with rfl | rfl <;> exact step_loop h

theorem doomed_of_step_careful (hi : Indexed s.loop.hub) (hentry : SendsToEntry s.loop)
    (hs : Unstarted s) (h : ClientPumps.step s a = some t) (hcareful : Careful s a)
    (hd : Doomed x t) : Doomed x s := by
  have hpump := (step_eq_some.mp h).1
  have hone := List.length_pos_iff.mpr hd.owed
  have hone' := owed_length_le s.loop x
  have hfull := hd.full
  have hfull' := queue_length_le (s := s) (x := x)
  rcases (pump_ended hs hpump).mp hd.ended with hended | hfails
  · rcases backlog_step hi hentry h hd.ended with ⟨htaken, -, hsum⟩ | ⟨-, hsum⟩
    · have hroom := hcareful.takes x htaken hended
      unfold backlog at hsum
      omega
    · unfold backlog at hsum
      exact ⟨hended, by omega, List.ne_nil_of_length_pos (by omega)⟩
  · have hloop := step_fails h hfails
    have hroom := hcareful.ends x hfails (hloop ▸ hd.owed)
    rw [System.queue, hloop] at hfull
    exact absurd hfull hroom.ne

theorem exists_doomed_of_careless (hi : Indexed s.loop.hub) (hentry : SendsToEntry s.loop)
    (hs : Unstarted s) (h : ClientPumps.step s a = some t) (hcareless : ¬Careful s a) :
    ∃ x, Doomed x t := by
  have hpump := (step_eq_some.mp h).1
  by_cases htakes : ∀ x, TakenFor x s a → s.writer x = .ended →
      (s.queue x).length < sendCapacity
  · have hnot : ¬∀ x, a = .writeError x ∨ a = .pingError x → owed s.loop x ≠ [] →
        (s.queue x).length < sendCapacity := fun hends => hcareless ⟨hends, htakes⟩
    push Not at hnot
    obtain ⟨x, hfails, howed, hfull⟩ := hnot
    have hloop := step_fails h hfails
    refine ⟨x, (pump_ended hs hpump).mpr (.inr hfails), ?_, hloop ▸ howed⟩
    rw [System.queue, hloop]
    exact Nat.le_antisymm queue_length_le hfull
  · push Not at htakes
    obtain ⟨x, htaken, hended, hfull⟩ := htakes
    have hended' := (pump_ended hs hpump (x := x)).mpr (.inl hended)
    have hfull' := queue_length_le (s := t) (x := x)
    have hone' := owed_length_le t.loop x
    rcases backlog_step hi hentry h hended' with ⟨-, -, hsum⟩ | ⟨hnot, -⟩
    · unfold backlog at hsum
      exact ⟨x, hended', by omega, List.ne_nil_of_length_pos (by omega)⟩
    · exact absurd htaken hnot

theorem doomed_iff_of_step (hi : Indexed s.loop.hub) (hentry : SendsToEntry s.loop)
    (hs : Unstarted s) (h : ClientPumps.step s a = some t) :
    (∃ x, Doomed x t) ↔ (∃ x, Doomed x s) ∨ ¬Careful s a := by
  constructor
  · rintro ⟨x, hd⟩
    by_cases hcareful : Careful s a
    · exact .inl ⟨x, doomed_of_step_careful hi hentry hs h hcareful hd⟩
    · exact .inr hcareful
  · rintro (⟨x, hd⟩ | hcareless)
    · exact ⟨x, doomed_step hi hentry hs hd h⟩
    · exact exists_doomed_of_careless hi hentry hs h hcareless

theorem not_doomed_iff {ids : ClientPtr → String}
    (run : Run ClientPumps.step (ClientPumps.init ids) hist s) :
    (¬∃ x, Doomed x s) ↔ ∀ e ∈ hist, Careful e.1 e.2 := by
  induction run with
  | start =>
    refine ⟨by simp, ?_⟩
    rintro - ⟨x, hd⟩
    exact hd.not_select rfl
  | @next hist s t a run taken ih =>
    rw [doomed_iff_of_step (indexed_system run) (sendsToEntry_run (run_loop run))
      (unstarted_run run) taken, not_or, ih, not_not]
    simp only [List.mem_append, List.mem_singleton, or_imp, forall_and, forall_eq]

/-- As long as all steps are careful, the hub never waits for a dead connection. -/
theorem never_stuck {ids : ClientPtr → String}
    (run : Run ClientPumps.step (ClientPumps.init ids) hist s)
    (hcareful : ∀ e ∈ hist, Careful e.1 e.2) : ¬Stuck s :=
  fun hstuck => (not_doomed_iff run).mpr hcareful hstuck.doomed

theorem not_select_of_careless {ids : ClientPtr → String}
    (run : Run ClientPumps.step (ClientPumps.init ids) hist s)
    (hcareless : ¬∀ e ∈ hist, Careful e.1 e.2) : s.loop.phase ≠ .select := by
  rw [← not_doomed_iff run, not_not] at hcareless
  obtain ⟨x, hd⟩ := hcareless
  exact hd.not_select

/-- Only a queue with room lets the hub go on. -/
theorem sending_step {msg : ClientMessage} {rest : Finset String}
    (hphase : s.loop.phase = .sending msg p rest) (hfull : (s.queue p).length = sendCapacity)
    (h : ClientPumps.step s a = some t) : t.loop.phase = .sending msg p rest := by
  have hloop := step_loop h
  cases he : hubEvent s a with
  | none =>
    rw [he] at hloop
    rw [show t.loop = s.loop from hloop, hphase]
  | some e =>
    rw [he] at hloop
    cases e with
    | register p order => simp [(step_register.mp hloop).1] at hphase
    | unregister p order => simp [(step_unregister.mp hloop).1] at hphase
    | subscribe sub => simp [(step_subscribe.mp hloop).1] at hphase
    | send msg => simp [(step_send.mp hloop).1] at hphase
    | visit i =>
      obtain ⟨_, _, hranging, -⟩ := step_visit.mp hloop
      simp [hranging] at hphase
    | leave =>
      obtain ⟨_, hranging, -⟩ := step_leave.mp hloop
      simp [hranging] at hphase
    | deliver =>
      obtain ⟨_, q, _, hsending, _, hroom, -⟩ := step_deliver.mp hloop
      rw [hphase] at hsending
      cases hsending
      exact absurd hfull hroom.ne
    | drain q =>
      obtain ⟨_, _, -, ht⟩ := step_drain.mp hloop
      rw [ht, hphase]

theorem stuck_run {ids : ClientPtr → String} {hist' : List (System × Action)}
    (run : Run ClientPumps.step (ClientPumps.init ids) hist s) (hstuck : Stuck s)
    (run' : Run ClientPumps.step s hist' t) : Stuck t ∧ t.loop.phase = s.loop.phase := by
  obtain ⟨msg, p, rest, hphase, hfull, hended⟩ := hstuck
  have hdoomed : Doomed p s := ⟨hended, hfull, by simp [owed, hphase]⟩
  have hkeeps : Doomed p t ∧ t.loop.phase = .sending msg p rest := by
    induction run' with
    | start => exact ⟨hdoomed, hphase⟩
    | next run' taken ih =>
      have whole := run.trans run'
      exact ⟨doomed_step (indexed_system whole) (sendsToEntry_run (run_loop whole))
        (unstarted_run whole) ih.1 taken, sending_step ih.2 ih.1.full taken⟩
  exact ⟨⟨msg, p, rest, hkeeps.2, hkeeps.1.full, hkeeps.1.ended⟩, hkeeps.2.trans hphase.symm⟩

/-- Connection 0 listens, its writer has ended, and `n` messages lie in its queue. -/
structure Abandoned (n : ℕ) (s : System) : Prop where
  phase : s.loop.phase = .select
  entry : s.loop.hub.clients.get "id" = some 0
  listens : s.loop.hub.channels.get "news" = some {"id"}
  ended : s.writer 0 = .ended
  length : (s.queue 0).length = n

/-- Connection 0 subscribes, and then its first ping fails. -/
def abandoning : List Action :=
  [.register 0 [], .read 0 ⟨["news"], "", ""⟩, .subscribe 0 "news", .pingError 0]

private theorem abandoning_runs :
    (exec ClientPumps.step (ClientPumps.init fun _ => "id") abandoning).isSome = true := by
  decide

theorem never_stuck_abandoning :
    ∃ hist s, Run ClientPumps.step (ClientPumps.init fun _ => "id") hist s ∧
      s.writer 0 = .ended ∧ ¬Stuck s := by
  obtain ⟨hist, run, -⟩ := run_final abandoning_runs
  have hselect : (final ClientPumps.step _ abandoning abandoning_runs).loop.phase = .select := by
    decide
  exact ⟨hist, _, run, by decide,
    never_stuck run ((not_doomed_iff run).mp fun ⟨_, hd⟩ => hd.not_select hselect)⟩

private theorem step_alone {e : Event} {loop : HubState} (he : hubEvent s a = some e)
    (hpump : pump s a = some s) (h : HubLoop.step s.loop e = some loop) :
    ClientPumps.step s a = some { s with loop } :=
  step_eq_some.mpr ⟨hpump, by rw [he]; exact h⟩

theorem abandoned_send {n : ℕ} (h : Abandoned n s) :
    ∃ hist t, Run ClientPumps.step s hist t ∧ t.loop = ⟨s.loop.hub, .sending ⟨"news", ""⟩ 0 ∅⟩ ∧
      t.writer = s.writer := by
  have hsend : ClientPumps.step s (.send ⟨"news", ""⟩) =
      some { s with loop := ⟨s.loop.hub, .ranging ⟨"news", ""⟩ {"id"}⟩ } :=
    step_alone rfl rfl (step_send.mpr ⟨h.phase, rfl, .inl ⟨_, h.listens, rfl⟩⟩)
  have hvisit : HubLoop.step ⟨s.loop.hub, .ranging ⟨"news", ""⟩ {"id"}⟩ (.visit "id") =
      some ⟨s.loop.hub, .sending ⟨"news", ""⟩ 0 ∅⟩ :=
    step_visit.mpr ⟨_, _, rfl, by simp, rfl, .inl ⟨0, h.entry, by simp⟩⟩
  exact ⟨_, _, (Run.one hsend).next (step_alone (a := .visit "id") rfl rfl hvisit), rfl, rfl⟩

theorem abandoned_deliver {n : ℕ} (h : Abandoned n s) (hn : n < sendCapacity) :
    ∃ hist t, Run ClientPumps.step s hist t ∧ Abandoned (n + 1) t := by
  obtain ⟨hist, t, run, hloop, hwriter⟩ := abandoned_send h
  cases hqueue : (s.loop.hub.client 0).send.send ⟨"news", ""⟩ with
  | none =>
    have hfull : (s.queue 0).length = sendCapacity := Channel.send_eq_none.mp hqueue
    have hlength := h.length
    omega
  | some queue =>
    obtain ⟨hroom, hbuf⟩ := Channel.send_eq_some.mp hqueue
    have hdeliver : ClientPumps.step t .deliver = some { t with
        loop := ⟨s.loop.hub.setQueue 0 queue, .ranging ⟨"news", ""⟩ ∅⟩ } :=
      step_alone rfl rfl (step_deliver.mpr
        ⟨_, 0, ∅, by rw [hloop], queue, by rwa [hloop], by rwa [hloop], by rw [hloop]⟩)
    refine ⟨_, _, (run.next hdeliver).next (step_alone (a := .leave) rfl rfl
      (step_leave.mpr ⟨_, rfl, rfl⟩)), rfl, h.entry, h.listens, by rw [← h.ended, hwriter], ?_⟩
    simpa [System.queue, WebSocketHub.setQueue_send, hbuf] using h.length

theorem abandoned_full {n : ℕ} (hn : n ≤ sendCapacity) :
    ∃ hist s, Run ClientPumps.step (ClientPumps.init fun _ => "id") hist s ∧ Abandoned n s := by
  induction n with
  | zero =>
    obtain ⟨hist, run, -⟩ := run_final abandoning_runs
    exact ⟨hist, _, run, by decide, by decide, by decide, by decide, by decide⟩
  | succ n ih =>
    obtain ⟨hist, s, run, hs⟩ := ih (Nat.le_of_succ_le hn)
    obtain ⟨hist', t, run', ht⟩ := abandoned_deliver hs hn
    exact ⟨_, t, run.trans run', ht⟩

/-- The 257th message for a connection whose writer has ended stops the hub. -/
theorem abandoned_stuck :
    ∃ hist s, Run ClientPumps.step (ClientPumps.init fun _ => "id") hist s ∧ Stuck s := by
  obtain ⟨hist, s, run, hs⟩ := abandoned_full le_rfl
  obtain ⟨hist', t, run', hloop, hwriter⟩ := abandoned_send hs
  refine ⟨_, t, run.trans run', _, 0, ∅, by rw [hloop], ?_, by rw [hwriter, hs.ended]⟩
  rw [System.queue, hloop]
  exact hs.length

end GoraddServe.HubBlocking
