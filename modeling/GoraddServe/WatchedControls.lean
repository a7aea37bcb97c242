import GoraddServe.PageDelivery

/-!
# Controls that watch a channel

A message on a channel that a control watches pushes the control for refresh when it reaches the
page. Together with the way of a message from the hub to the page, this is how a change that is
broadcast on the server gets a control drawn again.
-/
namespace GoraddServe.WatchedControls
open GoMaps JsValues MessageHub LabelledRuns ClientPumps HubDelivery PageMessages PageDelivery
open RefreshList hiding step init Action

/-- The control is in the array of the channel. -/
def Watches (s : Shim) (id c : String) : Prop :=
  c ∉ inherited ∧ id ∈ (s.watchers.get c).getD []

instance (s : Shim) (id c : String) : Decidable (Watches s id c) :=
  inferInstanceAs (Decidable (_ ∧ _))

/-- A message on `c` that is not the one of the testing framework. -/
def Refreshes (c : String) (msg : ClientMessage) : Prop :=
  msg.channel = c ∧ ¬(msg.message = "U" ∧ msg.channel = "redraw")

instance (c : String) (msg : ClientMessage) : Decidable (Refreshes c msg) :=
  inferInstanceAs (Decidable (_ ∧ _))

section Shims

variable {s t : Shim} {id c : String}

theorem watchers_foldl_push (controls watchers : List String) (s : Shim) :
    (watchers.foldl (fun s id => if id ∈ controls then push s id else s) s).watchers =
      s.watchers := by
  induction watchers generalizing s with
  | nil => rfl
  | cons id watchers ih =>
    rw [List.foldl_cons, ih]
    split <;> rfl

theorem watchers_watcherMessage (controls : List String) (s : Shim) (channel message : String) :
    (processWatcherMessage controls s channel message).watchers = s.watchers := by
  unfold processWatcherMessage
  split_ifs
  · rfl
  · rfl
  · rfl
  · split
    · rfl
    · dsimp only
      split
      · exact watchers_foldl_push controls _ s
      · exact watchers_foldl_push controls _ s

/-- A watching control that is on the page is pushed. -/
theorem count_watcherMessage {controls : List String} {msg : ClientMessage}
    (hwatches : Watches s id c) (hid : id ∈ controls) (hmsg : Refreshes c msg) :
    s.log.count id + 1 ≤
      (processWatcherMessage controls s msg.channel msg.message).log.count id := by
  obtain ⟨hc, hmem⟩ := hwatches
  obtain ⟨rfl, hredraw⟩ := hmsg
  obtain ⟨ids, hids⟩ : ∃ ids, s.watchers.get msg.channel = some ids := by
    cases hget : s.watchers.get msg.channel with
    | none => simp [hget] at hmem
    | some ids => exact ⟨ids, rfl⟩
  rw [hids, Option.getD_some] at hmem
  have hpushes := pushes_watchers controls ids s
  have hcount : 1 ≤ (ids.filter (· ∈ controls)).count id :=
    List.one_le_count_iff.mpr (List.mem_filter.mpr ⟨hmem, by simpa using hid⟩)
  unfold processWatcherMessage
  rw [if_neg hredraw, if_neg hc, hids]
  dsimp only
  split
  · rw [hpushes.updateForm.log, List.count_append]
    exact Nat.add_le_add_left hcount _
  · rw [hpushes.log, List.count_append]
    exact Nat.add_le_add_left hcount _

theorem log_watcherMessage (controls : List String) (s : Shim) (channel message : String) :
    s.log.count id ≤ (processWatcherMessage controls s channel message).log.count id := by
  obtain ⟨ids, hpushes⟩ := pushes_watcherMessage controls s channel message
  rw [hpushes.log, List.count_append]
  exact Nat.le_add_right _ _

theorem log_step {a : RefreshList.Action} (h : RefreshList.step s a = some t) :
    s.log.count id ≤ t.log.count id := by
  cases effect_of_step h with
  | pushed _ _ hpushes =>
    rw [hpushes.log, List.count_append]
    exact Nat.le_add_right _ _
  | sent _ hlog | succeeded _ hlog => rw [hlog]

/-- A control that begins to watch takes no other control's place. -/
theorem watches_addWatcher {id' channel : String} (h : addWatcher s id' channel = some t) :
    Watches t id c ↔ Watches s id c ∨ id = id' ∧ c = channel := by
  obtain ⟨hchannel, watchers, rfl, hget⟩ := addWatcher_eq_some h
  unfold Watches
  dsimp only
  rw [hget]
  split
  · rename_i hc
    subst hc
    cases s.watchers.get c with
    | none => simp [hchannel]
    | some ids =>
      rw [Option.elim_some, Option.getD_some, Option.getD_some]
      split
      · rename_i hmem
        refine ⟨.inl, ?_⟩
        rintro (h | ⟨rfl, -⟩)
        · exact h
        · exact ⟨hchannel, hmem⟩
      · simp [hchannel]
  · simp [*]

theorem watches_step {a : RefreshList.Action} (h : RefreshList.step s a = some t)
    (hwatches : Watches s id c) : Watches t id c := by
  cases a with
  | addWatcher id' channel =>
    exact (watches_addWatcher h).mpr (.inl hwatches)
  | watcherMessage controls channel message =>
    cases h
    rwa [Watches, watchers_watcherMessage]
  | refresh | updateForm | block =>
    cases h
    exact hwatches
  | postAjax async =>
    cases h
    unfold postAjax
    split <;> exact hwatches
  | updateTimer =>
    obtain ⟨-, h⟩ := Option.ite_none_right_eq_some.mp h
    cases h
    unfold postAjax
    split <;> exact hwatches
  | send | success | error | settle | finish =>
    obtain ⟨_, -, rfl⟩ := Option.map_eq_some_iff.mp h
    exact hwatches

end Shims

section Pages

variable {F : Type} {p q : Page F} {a : PageMessages.Action F} {id c : String}

/-- What a step has to do with the control and its channel: the control is on the page, the
scripts leave the channel to the watchers, and the control watches it when the connection opens. -/
def Attends (id c : String) (p : Page F) : PageMessages.Action F → Prop
  | .dispatch controls => id ∈ controls
  | .subscribe names _ => c ∉ names
  | .opened _ => Watches p.shim id c
  | _ => True

instance (id c : String) (p : Page F) : (a : PageMessages.Action F) → Decidable (Attends id c p a)
  | .dispatch controls => inferInstanceAs (Decidable (id ∈ controls))
  | .subscribe names _ => inferInstanceAs (Decidable (c ∉ names))
  | .opened _ => inferInstanceAs (Decidable (Watches p.shim id c))
  | .initMessagingClient | .message _ | .returned | .thrown | .handled | .closeWebSocket | .closed
  | .shim _ => .isTrue trivial

/-- The channel is left to the watchers, and every message on it has pushed the control. -/
structure Pushed (id c : String) (p : Page F) : Prop where
  watcher : ∀ f, p.channels.get c = some f → f = .watcher ∧ Watches p.shim id c
  pushed : (p.called.map Prod.snd).countP (Refreshes c) ≤ p.shim.log.count id

theorem refreshes_called (hp : Pushed id c p) {msg : ClientMessage} {f : F}
    (hget : p.channels.get msg.channel = some (.script f)) : ¬Refreshes c msg := by
  rintro ⟨rfl, -⟩
  cases (hp.watcher _ hget).1

theorem Pushed.step (hp : Pushed id c p) (h : step p a = some q) (ha : Attends id c p a) :
    Pushed id c q := by
  cases effect_of_step h with
  | @asked _ names f socket hassigned =>
    refine ⟨fun f' hf' => ?_, hp.pushed⟩
    dsimp only at hf'
    rw [get_setCallbacks] at hf'
    cases a with
    | opened order =>
      cases hassigned
      split at hf'
      · cases hf'
        exact ⟨rfl, ha⟩
      · exact hp.watcher f' hf'
    | subscribe names f =>
      cases hassigned
      rw [if_neg ha] at hf'
      exact hp.watcher f' hf'
    | _ => cases hassigned
  | message | ignored | resumed | thrown | socket => exact ⟨hp.watcher, hp.pushed⟩
  | @watched msg rest controls hturn hget =>
    refine ⟨fun f hf => ?_, ?_⟩
    · obtain ⟨hwatcher, hwatches⟩ := hp.watcher f hf
      exact ⟨hwatcher, by rwa [Watches, watchers_watcherMessage]⟩
    · have hpushed := hp.pushed
      dsimp only
      rw [List.map_append, List.countP_append, List.map_singleton, List.countP_singleton]
      by_cases hmsg : Refreshes c msg
      · have hwatches := (hp.watcher .watcher (hmsg.1 ▸ hget)).2
        have hcount := count_watcherMessage hwatches ha hmsg
        rw [if_pos (decide_eq_true hmsg)]
        omega
      · have hlog : p.shim.log.count id ≤ _ :=
          log_watcherMessage controls p.shim msg.channel msg.message
        rw [if_neg (by simpa using hmsg)]
        omega
  | called controls hturn hget =>
    refine ⟨hp.watcher, ?_⟩
    have hmsg := refreshes_called hp hget
    dsimp only
    rw [List.map_append, List.countP_append, List.map_singleton, List.countP_singleton,
      if_neg (by simpa using hmsg)]
    exact hp.pushed
  | closed hturn =>
    refine ⟨fun f hf => ?_, hp.pushed⟩
    rw [GoMap.get_empty] at hf
    cases hf
  | shim ha hstep =>
    refine ⟨fun f hf => ?_, hp.pushed.trans (log_step hstep)⟩
    obtain ⟨hwatcher, hwatches⟩ := hp.watcher f hf
    exact ⟨hwatcher, watches_step hstep hwatches⟩

theorem pushed_init (id c : String) : Pushed id c (Page.init : Page F) :=
  ⟨fun _ hf => absurd hf (by simp [Page.init]), Nat.zero_le _⟩

end Pages

section Runs

variable {F : Type} {x : ClientPtr} {size : List String → ℕ} {w : World F}
  {ids : ClientPtr → String} {hist : List (World F × PageDelivery.Action F)} {id c : String}

/-- `Attends` of the steps of the page. -/
def PageAttends (id c : String) (w : World F) : PageDelivery.Action F → Prop
  | .server _ => True
  | .page b => Attends id c w.page b

instance (id c : String) (w : World F) : (a : PageDelivery.Action F) →
    Decidable (PageAttends id c w a)
  | .server _ => .isTrue trivial
  | .page b => inferInstanceAs (Decidable (Attends id c w.page b))

theorem pushed_run (run : Run (PageDelivery.step size x) (PageDelivery.init ids) hist w)
    (hattends : ∀ e ∈ hist, PageAttends id c e.1 e.2) : Pushed id c w.page := by
  refine run.invariant_of (C := fun w a => PageAttends id c w a) (I := fun w => Pushed id c w.page)
    (fun w a v hw ha h => ?_) hattends (pushed_init id c)
  cases a with
  | server a =>
    obtain ⟨rest, system, -, -, rfl⟩ := step_server.mp h
    exact ⟨hw.watcher, hw.pushed⟩
  | page b =>
    obtain ⟨-, page, hstep, rfl⟩ := step_page.mp h
    exact hw.step hstep ha

/-- Whenever the hub is at its `select`, every message due on a channel that the control watches
has pushed the control for refresh, or is still under way to the page. -/
theorem refreshed_for_each (hids : ∀ q, ids q = ids x → q = x)
    (run : Run (PageDelivery.step size x) (PageDelivery.init ids) hist w)
    (hworks : ∀ e ∈ hist, Works x e.2) (hattends : ∀ e ∈ hist, PageAttends id c e.1 e.2)
    (hselect : w.system.loop.phase = .select) :
    (due x (served hist)).countP (Refreshes c) ≤
      w.page.shim.log.count id + (underWay x w).countP (Refreshes c) := by
  have hpushed := (pushed_run run hattends).pushed
  rw [due_eq hids run hworks hselect, List.countP_append]
  exact Nat.add_le_add_right hpushed _

end Runs

theorem refreshed_for_each_news : 1 ≤ newsEnd.page.shim.log.count "list" := by
  have hattends : ∀ e ∈ newsHistory, PageAttends "list" "news" e.1 e.2 := by decide
  have hcount := refreshed_for_each oneId_alone newsHistory_run newsHistory_works hattends
    (by decide)
  have hdue : (due 0 (served newsHistory)).countP (Refreshes "news") = 1 := by decide
  have hunder : (underWay 0 newsEnd).countP (Refreshes "news") = 0 := by decide
  rwa [hdue, hunder] at hcount

end GoraddServe.WatchedControls
