import GoraddServe.ClientPumps

/-!
# A connection and those it supersedes

Two connections may come with one client ID, and the later one takes the entry of the
earlier. Events of the earlier one may still be on their way, and the hub reads only their
client ID. They spare the successor when they do not carry its ID, or ask for nothing that
it does not already have; every other one damages it.
-/
namespace GoraddServe.HubSuccession
open GoMaps MessageHub LabelledRuns HubLoop HubIndex ClientPumps

variable {s t : System} {a : Action} {x : ClientPtr} {hist : List (System × Action)}

/-- The channel that an action asks for on behalf of `x`. -/
def request (x : ClientPtr) : Action → Option String
  | .subscribe y channel => if y = x then some channel else none
  | _ => none

/-- The channels that `x` asked for. -/
def asked (x : ClientPtr) (hist : List (System × Action)) : Finset String :=
  ((hist.map Prod.snd).filterMap (request x)).toFinset

/-- `x` is the entry of its ID, with the channels it asked for. -/
structure Kept (x : ClientPtr) (hist : List (System × Action)) (s : System) : Prop where
  entry : s.loop.hub.clients.get (s.clientID x) = some x
  channels : (s.loop.hub.client x).channels = asked x hist

/-- The hub processes the `unregister` of `x`, or the `register` of another connection with
its ID. -/
def Ends (x : ClientPtr) (s : System) : Action → Prop
  | .unregister y _ => y = x
  | .register y _ => y ≠ x ∧ s.clientID y = s.clientID x
  | _ => False

/-- An `unregister` with the ID of `x` is its own, and a `subscribe` with the ID of `x` is its
own or asks for a channel that `x` has. -/
def Spares (x : ClientPtr) (s : System) : Action → Prop
  | .unregister y _ => s.clientID y = s.clientID x → y = x
  | .subscribe y channel =>
    s.clientID y = s.clientID x → y = x ∨ channel ∈ (s.loop.hub.client x).channels
  | _ => True

theorem asked_concat : asked x (hist ++ [(s, a)]) = asked x hist ∪ (request x a).toFinset := by
  ext c
  simp [asked, List.filterMap_append, or_comm]

private theorem request_subset {y : ClientPtr} {channel : String} :
    (request x (.subscribe y channel)).toFinset ⊆ {channel} := by
  by_cases hy : y = x <;> simp [request, hy]

/-- An action that neither registers, unregisters nor subscribes leaves the registry alone. -/
private theorem kept_elsewhere (hk : Kept x hist s) (h : ClientPumps.step s a = some t)
    (hregister : ∀ y order, a ≠ .register y order)
    (hunregister : ∀ y order, a ≠ .unregister y order)
    (hsubscribe : ∀ y channel, a ≠ .subscribe y channel) : Kept x (hist ++ [(s, a)]) t := by
  have hasked : asked x (hist ++ [(s, a)]) = asked x hist := by
    have hnone : request x a = none := by cases a <;> simp_all [request]
    simp [asked_concat, hnone]
  have hregistry : t.loop.hub.clients = s.loop.hub.clients ∧
      ∀ q, (t.loop.hub.client q).channels = (s.loop.hub.client q).channels := by
    have hloop := step_loop h
    cases he : hubEvent s a with
    | none =>
      rw [he] at hloop
      rw [show t.loop = s.loop from hloop]
      exact ⟨rfl, fun _ => rfl⟩
    | some e =>
      rw [he] at hloop
      refine step_registry hloop ?_ ?_ ?_ <;> cases a <;> simp_all [hubEvent] <;> grind
  refine ⟨?_, ?_⟩
  · rw [hregistry.1, ClientPumps.step_clientID h]
    exact hk.entry
  · rw [hregistry.2, hasked]
    exact hk.channels

theorem kept_step (hi : Indexed s.loop.hub) (hserved : s.reader x ≠ .registering)
    (hk : Kept x hist s) (h : ClientPumps.step s a = some t) (hends : ¬Ends x s a)
    (hspares : Spares x s a) : Kept x (hist ++ [(s, a)]) t := by
  have hpump := (step_eq_some.mp h).1
  have hloop := step_loop h
  have hid := ClientPumps.step_clientID h x
  -- an event with another ID than that of `x` does not reach it
  have hother : ∀ {y}, s.clientID y ≠ s.clientID x →
      s.loop.hub.clients.get (s.clientID y) ≠ some x :=
    fun hy hx => hy (hi.entry _ _ hx).symm
  cases a with
  | register y order =>
    obtain ⟨hr, -⟩ := pump_register.mp hpump
    obtain ⟨-, horder, ht⟩ := step_register.mp hloop
    have hyx : y ≠ x := fun hyx => hserved (hyx ▸ hr)
    have hy : s.clientID y ≠ s.clientID x := fun hy => hends ⟨hyx, hy⟩
    refine ⟨?_, ?_⟩
    · rw [hid, ht, WebSocketHub.register_clients, if_neg hy.symm]
      exact hk.entry
    · rw [ht, WebSocketHub.register_eq, WebSocketHub.unregisterClient_client horder,
        asked_concat, ← hk.channels]
      simp [request, hother hy]
  | unregister y order =>
    obtain ⟨-, horder, ht⟩ := step_unregister.mp hloop
    have hy : s.clientID y ≠ s.clientID x := fun hy => hends (hspares hy)
    refine ⟨?_, ?_⟩
    · rw [hid, ht, WebSocketHub.unregisterClient_clients, if_neg hy.symm]
      exact hk.entry
    · rw [ht, WebSocketHub.unregisterClient_client horder, asked_concat, ← hk.channels]
      simp [request, hother hy]
  | subscribe y channel =>
    obtain ⟨-, ht⟩ := step_subscribe.mp hloop
    refine ⟨?_, ?_⟩
    · rw [hid, ht, WebSocketHub.subscribeChannel_clients]
      exact hk.entry
    · rw [ht, WebSocketHub.subscribeChannel_client, asked_concat, ← hk.channels]
      by_cases hy : s.clientID y = s.clientID x
      · have hx : s.loop.hub.clients.get (s.clientID y) = some x := hy ▸ hk.entry
        rcases hspares hy with rfl | hmem
        · simp [request, hx, Finset.union_comm]
        · rw [if_pos hx, Finset.insert_eq_of_mem hmem]
          exact (Finset.union_eq_left.mpr
            (request_subset.trans (Finset.singleton_subset_iff.mpr hmem))).symm
      · have hyx : y ≠ x := fun hyx => hy (hyx ▸ rfl)
        simp [request, hother hy, hyx]
  | _ => exact kept_elsewhere hk h (by simp) (by simp) (by simp)

theorem kept_register {order : List String} (hi : Indexed s.loop.hub)
    (h : ClientPumps.step s (.register x order) = some t) : Kept x [] t := by
  obtain ⟨-, horder, ht⟩ := step_register.mp (step_loop h)
  refine ⟨?_, ?_⟩
  · rw [ClientPumps.step_clientID h, ht, WebSocketHub.register_clients, if_pos rfl]
  · rw [ht, WebSocketHub.register_eq, WebSocketHub.unregisterClient_client horder]
    split
    · rfl
    · rename_i hfresh
      exact hi.idle x hfresh

theorem spares_of_kept (hk : Kept x hist s) (h : ClientPumps.step s a = some t)
    (hk' : Kept x (hist ++ [(s, a)]) t) : Spares x s a := by
  have hloop := step_loop h
  cases a with
  | unregister y order =>
    intro hy
    obtain ⟨-, -, ht⟩ := step_unregister.mp hloop
    have hentry := hk'.entry
    rw [ClientPumps.step_clientID h, ht, WebSocketHub.unregisterClient_clients, if_pos hy.symm]
      at hentry
    cases hentry
  | subscribe y channel =>
    intro hy
    obtain ⟨-, ht⟩ := step_subscribe.mp hloop
    by_cases hyx : y = x
    · exact .inl hyx
    · right
      have hmem : channel ∈ asked x (hist ++ [(s, .subscribe y channel)]) := by
        rw [← hk'.channels, ht, WebSocketHub.subscribeChannel_client, if_pos (hy ▸ hk.entry)]
        exact Finset.mem_insert_self ..
      simpa [asked_concat, request, hyx, ← hk.channels] using hmem
  | _ => trivial

/-- While a connection holds its ID, it is kept through a run if and only if all events of
the run spare it. -/
theorem kept_iff_spared {ids : ClientPtr → String} {order : List String}
    {pre post : List (System × Action)} {s s' t : System}
    (before : Run ClientPumps.step (ClientPumps.init ids) pre s)
    (registers : ClientPumps.step s (.register x order) = some s')
    (after : Run ClientPumps.step s' post t) (holds : ∀ e ∈ post, ¬Ends x e.1 e.2) :
    (∀ head u, head <+: post → Run ClientPumps.step s' head u → Kept x head u) ↔
      ∀ e ∈ post, Spares x e.1 e.2 := by
  constructor
  · intro hkept e he
    obtain ⟨head, u, hpre, run, taken⟩ := after.at_mem he
    exact spares_of_kept (hkept head e.1 ((List.prefix_append head [e]).trans hpre) run) taken
      (hkept (head ++ [e]) u hpre (run.next taken))
  · intro hspares head u hpre run
    have hserved : s'.reader x ≠ .registering := by
      have ht := (pump_register.mp (step_eq_some.mp registers).1).2
      have hreader : s'.reader = Function.update s.reader x .reading := congrArg System.reader ht
      rw [hreader, Function.update_self]
      simp
    refine (run.history_of (C := fun s a => ¬Ends x s a ∧ Spares x s a)
      (J := fun hist s => Kept x hist s ∧ s.reader x ≠ .registering) ?_ ?_ ?_).1
    · rintro hist v a w run ⟨hk, hserved⟩ ⟨hends, hspares⟩ taken
      have hi := indexed_system ((before.next registers).trans run)
      exact ⟨kept_step hi hserved hk taken hends hspares, registered_step taken hserved⟩
    · intro e he
      exact ⟨holds e (hpre.subset he), hspares e (hpre.subset he)⟩
    · exact ⟨kept_register (indexed_system before) registers, hserved⟩

/-- Connection 0 is about to subscribe to a channel when connection 1 comes with its ID. -/
def subscribing : List Action := [.register 0 [], .read 0 ⟨["news"], "", ""⟩]

private theorem subscribing_runs :
    (exec ClientPumps.step (ClientPumps.init fun _ => "id") subscribing).isSome = true := by
  decide

private theorem superseded_runs : (ClientPumps.step
    (final ClientPumps.step (ClientPumps.init fun _ => "id") subscribing subscribing_runs)
    (.register 1 [])).isSome = true := by
  decide

/-- Connection 1 subscribes, and the events of connection 0 wait. -/
def undisturbed : List Action :=
  [.read 1 ⟨["chat"], "", ""⟩, .send ⟨"chat", "a"⟩, .subscribe 1 "chat"]

private theorem undisturbed_runs : (exec ClientPumps.step
    ((ClientPumps.step (final _ _ _ subscribing_runs) _).get superseded_runs)
    undisturbed).isSome = true := by
  decide

theorem kept_iff_spared_undisturbed :
    ∃ post t, Kept 1 post t ∧ (t.loop.hub.client 1).channels = {"chat"} := by
  obtain ⟨pre, before, -⟩ := run_final subscribing_runs
  obtain ⟨post, after, hlabels⟩ := run_final undisturbed_runs
  have hmem : ∀ e ∈ post, e.2 ∈ undisturbed := fun e he => hlabels ▸ List.mem_map_of_mem he
  simp only [undisturbed, List.mem_cons, List.not_mem_nil, or_false] at hmem
  have hkept := (kept_iff_spared (x := 1) before (Option.some_get superseded_runs).symm after
    (fun e he => by rcases hmem e he with h | h | h <;> simp [h, Ends])).mpr
    (fun e he => by rcases hmem e he with h | h | h <;> simp [h, Spares])
  exact ⟨post, _, hkept post _ List.prefix_rfl after, by decide⟩

/-- What connection 0 still does after connection 1 has taken its ID. -/
def lingering : List Action := [.subscribe 0 "news", .readError 0, .unregister 0 ["news"]]

private theorem lingering_runs (n : Fin 4) : (exec ClientPumps.step
    ((ClientPumps.step (final _ _ _ subscribing_runs) _).get superseded_runs)
    (lingering.take n)).isSome = true := by
  revert n
  decide

private theorem not_ends_lingering {n : ℕ} (h : hist.map Prod.snd = lingering.take n) :
    ∀ e ∈ hist, ¬Ends 1 e.1 e.2 := by
  intro e he
  have hmem : e.2 ∈ lingering := List.mem_of_mem_take (h ▸ List.mem_map_of_mem he)
  simp only [lingering, List.mem_cons, List.not_mem_nil, or_false] at hmem
  rcases hmem with h | h | h <;> simp [h, Ends]

/-- A late `subscribe` of connection 0 gives connection 1 a channel it never asked for, and a
late `unregister` of connection 0 takes its entry away. -/
theorem superseded_reaches_successor :
    ∃ pre s s', Run ClientPumps.step (ClientPumps.init fun _ => "id") pre s ∧
      ClientPumps.step s (.register 1 []) = some s' ∧
      (∃ post t, Run ClientPumps.step s' post t ∧ (∀ e ∈ post, ¬Ends 1 e.1 e.2) ∧
        asked 1 post = ∅ ∧ (t.loop.hub.client 1).channels = {"news"}) ∧
      ∃ post t, Run ClientPumps.step s' post t ∧ (∀ e ∈ post, ¬Ends 1 e.1 e.2) ∧
        t.loop.hub.clients.get (t.clientID 1) = none := by
  obtain ⟨pre, before, -⟩ := run_final subscribing_runs
  obtain ⟨post₁, after₁, hlabels₁⟩ := run_final (lingering_runs 1)
  obtain ⟨post₂, after₂, hlabels₂⟩ := run_final (lingering_runs 3)
  refine ⟨pre, _, _, before, (Option.some_get superseded_runs).symm,
    ⟨post₁, _, after₁, not_ends_lingering hlabels₁, ?_, by decide⟩,
    post₂, _, after₂, not_ends_lingering hlabels₂, by decide⟩
  rw [asked, hlabels₁]
  decide

end GoraddServe.HubSuccession
