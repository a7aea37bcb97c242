import GoraddServe.HubLoop

/-!
# The two maps of the hub index one relation

The invariant says what each map knows of the other, and two things more that keep it
going: the entry of an ID is a client with that ID, and a client that is not the entry of
its ID has no channels left. The last one is why a connection that registers under an ID
in use starts from nothing.
-/
namespace GoraddServe.HubIndex
open BufferedChannels GoMaps MessageHub LabelledRuns HubLoop

structure Indexed (h : WebSocketHub) : Prop where
  listed : ∀ c i, Relates h.channels c i ↔
    ∃ p, h.clients.get i = some p ∧ c ∈ (h.client p).channels
  nonempty : NoEmptySet h.channels
  entry : ∀ i p, h.clients.get i = some p → (h.client p).clientID = i
  idle : ∀ p, h.clients.get (h.client p).clientID ≠ some p → (h.client p).channels = ∅

namespace Indexed

variable {h h' : WebSocketHub} {i clientID channel : String} {p q : ClientPtr} {order : List String}

theorem mem_channelsOf (hi : Indexed h) {c : String} :
    c ∈ h.channelsOf i ↔ Relates h.channels c i := by
  rw [hi.listed, WebSocketHub.channelsOf]
  cases h.clients.get i <;> simp

theorem of_eq (hi : Indexed h) (hchannels : h'.channels = h.channels)
    (hclients : h'.clients = h.clients)
    (hclient : ∀ p, (h'.client p).clientID = (h.client p).clientID ∧
      (h'.client p).channels = (h.client p).channels) : Indexed h' := by
  refine ⟨?_, ?_, ?_, ?_⟩
  · simpa only [hchannels, hclients, (hclient _).2] using hi.listed
  · simpa only [hchannels] using hi.nonempty
  · simpa only [hclients, (hclient _).1] using hi.entry
  · simpa only [hclients, (hclient _).1, (hclient _).2] using hi.idle

theorem setQueue (hi : Indexed h) (queue : Channel ClientMessage sendCapacity) :
    Indexed (h.setQueue p queue) :=
  hi.of_eq rfl rfl fun _ => ⟨WebSocketHub.setQueue_clientID queue,
    WebSocketHub.setQueue_client_channels queue⟩

theorem unregisterClient (hi : Indexed h) (horder : Enumerates order (h.channelsOf clientID)) :
    Indexed (h.unregisterClient clientID order) := by
  have hclients := @WebSocketHub.unregisterClient_clients h clientID order
  have hclient := fun q => WebSocketHub.unregisterClient_client (q := q) horder
  refine ⟨?_, WebSocketHub.noEmptySet_unregisterClient hi.nonempty, ?_, ?_⟩
  · intro c j
    rw [WebSocketHub.relates_unregisterClient horder, hi.mem_channelsOf, hclients]
    by_cases hj : j = clientID
    · subst hj
      simp
    · simp only [hj, and_false, not_false_eq_true, and_true, if_false, hclient, hi.listed]
      -- the entry of another ID is another client, so its channels are left alone
      refine exists_congr fun p => and_congr_right fun hp => ?_
      have hne : h.clients.get clientID ≠ some p := by
        intro hp'
        exact hj ((hi.entry j p hp).symm.trans (hi.entry clientID p hp'))
      rw [if_neg hne]
  · intro j p hp
    rw [hclients] at hp
    split at hp
    · cases hp
    · rw [hclient]
      exact hi.entry j p hp
  · intro p hp
    simp only [hclient, hclients] at hp ⊢
    split
    · rfl
    · rename_i hne
      refine hi.idle p fun hp' => ?_
      have hid : (h.client p).clientID ≠ clientID := fun hid => hne (hid ▸ hp')
      exact hp (by rw [if_neg hid, hp'])

theorem enter (hi : Indexed h) (hfree : h.clients.get (h.client p).clientID = none) :
    Indexed { h with clients := h.clients.set (h.client p).clientID p } := by
  have hp : (h.client p).channels = ∅ := hi.idle p (by simp [hfree])
  refine ⟨?_, hi.nonempty, ?_, ?_⟩
  · intro c j
    simp only [GoMap.get_set]
    rw [hi.listed]
    by_cases hj : j = (h.client p).clientID
    · subst hj
      simp [hfree, hp]
    · simp [hj]
  · intro j q hq
    simp only [GoMap.get_set] at hq
    split at hq
    · rename_i hj
      cases hq
      exact hj.symm
    · exact hi.entry j q hq
  · intro q hq
    simp only [GoMap.get_set] at hq
    split at hq
    · rename_i hid
      exact hi.idle q (by simp [hid, hfree])
    · exact hi.idle q hq

theorem register (hi : Indexed h)
    (horder : Enumerates order (h.channelsOf (h.client p).clientID)) :
    Indexed (h.register p order) := by
  have hid : ((h.unregisterClient (h.client p).clientID order).client p).clientID =
      (h.client p).clientID := by rw [WebSocketHub.unregisterClient_client horder]
  have hfree : (h.unregisterClient (h.client p).clientID order).clients.get
      ((h.unregisterClient (h.client p).clientID order).client p).clientID = none := by
    rw [hid, WebSocketHub.unregisterClient_clients, if_pos rfl]
  rw [WebSocketHub.register_eq]
  simpa only [hid] using (hi.unregisterClient horder).enter hfree

theorem subscribeChannel (hi : Indexed h) : Indexed (h.subscribeChannel clientID channel) := by
  have hclient := fun q => @WebSocketHub.subscribeChannel_client h clientID channel q
  refine ⟨?_, WebSocketHub.noEmptySet_subscribeChannel hi.nonempty, ?_, ?_⟩
  · intro c j
    rw [WebSocketHub.relates_subscribeChannel, WebSocketHub.subscribeChannel_clients, hi.listed]
    simp only [hclient]
    constructor
    · rintro (⟨p, hp, hc⟩ | ⟨⟨p, hp⟩, rfl, rfl⟩)
      · refine ⟨p, hp, ?_⟩
        split
        · exact Finset.mem_insert_of_mem hc
        · exact hc
      · exact ⟨p, hp, by simp [hp]⟩
    · rintro ⟨p, hp, hc⟩
      split at hc
      · rename_i hp'
        rcases Finset.mem_insert.mp hc with rfl | hc
        · exact Or.inr ⟨⟨p, hp'⟩, rfl, (hi.entry _ _ hp).symm.trans (hi.entry _ _ hp')⟩
        · exact Or.inl ⟨p, hp, hc⟩
      · exact Or.inl ⟨p, hp, hc⟩
  · intro j p hp
    rw [WebSocketHub.subscribeChannel_clients] at hp
    rw [hclient]
    exact hi.entry j p hp
  · intro p hp
    rw [WebSocketHub.subscribeChannel_clients, hclient] at hp
    have hne : h.clients.get clientID ≠ some p := by
      intro hp'
      exact hp (by simpa [hi.entry _ _ hp'] using hp')
    rw [hclient]
    simpa [hne] using hi.idle p hp

theorem channels_eq_empty (hi : Indexed h) (hclients : h.clients = ∅) : h.channels = ∅ := by
  refine GoMap.eq_empty_iff.mpr fun c => ?_
  cases hc : h.channels.get c with
  | none => rfl
  | some ids =>
    obtain ⟨i, hmem⟩ := hi.nonempty c ids hc
    obtain ⟨p, hp, -⟩ := (hi.listed c i).mp ⟨ids, hc, hmem⟩
    rw [hclients, GoMap.get_empty] at hp
    cases hp

end Indexed

theorem indexed_init (ids : ClientPtr → String) : Indexed (init ids).hub where
  listed c i := by simp [init, Relates]
  nonempty c vs h := by simp [init] at h
  entry i p h := by simp [init] at h
  idle p h := rfl

theorem indexed_step {s t : HubState} {e : Event} (hi : Indexed s.hub) (h : step s e = some t) :
    Indexed t.hub := by
  cases e with
  | register p order =>
    obtain ⟨-, horder, rfl⟩ := step_register.mp h
    exact hi.register horder
  | unregister p order =>
    obtain ⟨-, horder, rfl⟩ := step_unregister.mp h
    exact hi.unregisterClient horder
  | send msg =>
    rw [(step_send.mp h).2.1]
    exact hi
  | subscribe sub =>
    obtain ⟨-, rfl⟩ := step_subscribe.mp h
    exact hi.subscribeChannel
  | visit i =>
    obtain ⟨msg, rest, -, -, hhub, -⟩ := step_visit.mp h
    rw [hhub]
    exact hi
  | deliver =>
    obtain ⟨msg, p, rest, -, queue, -, -, rfl⟩ := step_deliver.mp h
    exact hi.setQueue queue
  | leave =>
    obtain ⟨msg, -, rfl⟩ := step_leave.mp h
    exact hi
  | drain p =>
    obtain ⟨msg, queue, -, rfl⟩ := step_drain.mp h
    exact hi.setQueue queue

theorem indexed_run {ids : ClientPtr → String} {hist : List (HubState × Event)} {s : HubState}
    (run : Run step (init ids) hist s) : Indexed s.hub :=
  run.invariant (I := fun s => Indexed s.hub) (fun _ _ _ hi h => indexed_step hi h)
    (indexed_init ids)

/-- After any sequence of events the two maps of the hub agree, and no channel is kept
without a listener. -/
theorem hub_index_exact {ids : ClientPtr → String} {hist : List (HubState × Event)} {s : HubState}
    (run : Run step (init ids) hist s) :
    (∀ i c, Relates s.hub.channels c i ↔
      ∃ p, s.hub.clients.get i = some p ∧ c ∈ (s.hub.client p).channels) ∧
      NoEmptySet s.hub.channels ∧ (s.hub.clients = ∅ → s.hub.channels = ∅) := by
  have hi := indexed_run run
  exact ⟨fun i c => hi.listed c i, hi.nonempty, hi.channels_eq_empty⟩

/-- One ID registers, subscribes, registers again, subscribes to something else and leaves. -/
def rejoining : List Event :=
  [.register 0 [], .subscribe ⟨"id", "old"⟩, .register 1 ["old"], .subscribe ⟨"id", "new"⟩,
    .unregister 0 ["new"]]

private theorem rejoining_runs : (exec step (init fun _ => "id") rejoining).isSome = true := by
  decide

theorem hub_index_exact_rejoining :
    ∃ s, (∃ hist, Run step (init fun _ => "id") hist s) ∧ s.hub.clients = ∅ ∧
      s.hub.channels = ∅ := by
  obtain ⟨hist, run, -⟩ := run_final rejoining_runs
  have hclients : (final step _ rejoining rejoining_runs).hub.clients = ∅ := by decide
  exact ⟨_, ⟨hist, run⟩, hclients, (hub_index_exact run).2.2 hclients⟩

end GoraddServe.HubIndex
