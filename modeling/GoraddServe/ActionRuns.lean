import GoraddServe.ActionQueue

/-!
# What becomes of an action

The actions that were taken out of the queue, followed by those that wait, are the actions that
were queued. An action without a delay is called when it is taken out. An action with a delay
has its timer then, until it is called or another action takes its key. While an action waits,
`processActions` runs or has its timer.
-/
namespace GoraddServe.ActionQueue
open LabelledRuns NamedTimers

/-- The timers of the browser belong to the queue or to the key of an action. -/
structure Named (s : State) : Prop where
  linked : s.table.Linked
  once : ∀ l ∈ s.table.live, l.every = none
  actions : ∀ l ∈ s.table.live, l.action = .processActions → l.id = actionsTimer
  key : ∀ l ∈ s.table.live, ∀ params, l.action = .f params → l.id = params.k
  head : ∀ l, s.running = some ⟨l, none⟩ → l.action = .processActions

def Armed (s : State) : Prop :=
  s.actionQueue ≠ [] →
    (∃ r, s.running = some r ∧ r.timer.action = .processActions) ∨
      s.table.hasTimer actionsTimer = true

def Pending (s : State) (params : Params) : Prop :=
  ∃ l ∈ s.table.live, l.action = .f params

/-- An action that was queued later has taken the key. -/
def Superseded (s : State) (params : Params) : Prop :=
  ∃ later ∈ s.taken, later.Delayed ∧ later.k = params.k ∧ params.f < later.f

/-- The record of the queue. -/
structure Recorded (s : State) : Prop where
  log : s.queued = s.taken ++ s.actionQueue
  increasing : s.queued.Pairwise (·.f < ·.f)
  fresh : ∀ params ∈ s.queued, params.f < s.count

/-- The record of the calls. -/
structure Fated (s : State) : Prop where
  ran_taken : ∀ params ∈ s.ran, params ∈ s.taken
  ran_nodup : s.ran.Nodup
  immediate : s.ran.filter (¬·.Delayed) = s.taken.filter (¬·.Delayed)
  pending : ∀ params, Pending s params → params ∈ s.taken ∧ params.Delayed ∧ params ∉ s.ran
  fate : ∀ params ∈ s.taken, params.Delayed →
    params ∈ s.ran ∨ Pending s params ∨ Superseded s params

section Steps

variable {s t : State} {params : Params} {l : Live String Callback}

theorem Named.restrict (hs : Named s) (ht : t.table.Linked)
    (hlive : ∀ l ∈ t.table.live, l ∈ s.table.live)
    (hhead : ∀ l, t.running = some ⟨l, none⟩ → l.action = .processActions) : Named t :=
  ⟨ht, fun l hl => hs.once l (hlive l hl), fun l hl => hs.actions l (hlive l hl),
    fun l hl => hs.key l (hlive l hl), hhead⟩

theorem Named.fired (hs : Named s) (hl : l ∈ s.table.live) :
    ∀ m, m ∈ (s.table.begin s.clock l).live ↔ m ∈ s.table.live ∧ m.id ≠ l.id :=
  fun _ => hs.linked.mem_begin hl (hs.once l hl)

theorem Named.setTimer {id : String} {action : Callback} {d : ℚ} (hs : Named s)
    (htable : t.table = s.table.setTimer id action s.clock d false)
    (hrunning : t.running = s.running) (hactions : action = .processActions → id = actionsTimer)
    (hkey : ∀ params, action = .f params → id = params.k) : Named t := by
  have hmem : ∀ l, l ∈ t.table.live ↔ _ := fun l => htable ▸ hs.linked.mem_setTimer
  refine ⟨htable ▸ hs.linked.setTimer .., fun l hl => ?_, fun l hl hf => ?_,
    fun l hl params hf => ?_, hrunning ▸ hs.head⟩
  all_goals obtain ⟨hl, -⟩ | rfl := (hmem l).mp hl
  · exact hs.once l hl
  · rfl
  · exact hs.actions l hl hf
  · exact hactions hf
  · exact hs.key l hl params hf
  · exact hkey params hf

theorem Named.effect (hs : Named s) (h : Effect s t) : Named t := by
  cases h with
  | arm params _ _ => exact hs.setTimer rfl rfl (fun _ => rfl) fun _ hf => by cases hf
  | push => exact hs.restrict hs.linked (fun _ hl => hl) hs.head
  | process l _ hl hf =>
    refine hs.restrict (hs.linked.begin hl _) (fun m hm => ((hs.fired hl m).mp hm).1) ?_
    intro m hm
    cases hm
    exact hf
  | delayed l params _ hl hf =>
    refine hs.restrict (hs.linked.begin hl _) (fun m hm => ((hs.fired hl m).mp hm).1) ?_
    intro m hm
    cases hm
  | done l | ended l =>
    refine hs.restrict (hs.linked.finish _ l) (fun m hm => by simpa [State.finish] using hm) ?_
    intro m hm
    cases hm
  | schedule l params rest d _ _ _ _ =>
    refine hs.setTimer rfl rfl (fun hf => by cases hf) fun params' hf => ?_
    cases hf
    rfl
  | call l params rest _ _ _ =>
    refine hs.restrict hs.linked (fun _ hm => hm) ?_
    intro m hm
    cases hm
  | resume l params _ hf =>
    refine hs.restrict hs.linked (fun _ hm => hm) ?_
    intro m hm
    cases hm
    exact hf

theorem Named.hasTimer_actions (hs : Named s) (hlive : ∀ l ∈ s.table.live,
    l.id = actionsTimer → l ∈ t.table.live) (ht : t.table.Linked)
    (h : s.table.hasTimer actionsTimer = true) : t.table.hasTimer actionsTimer = true := by
  obtain ⟨l, hl, hid⟩ := hs.linked.hasTimer_iff.mp h
  exact ht.hasTimer_iff.mpr ⟨l, hlive l hl hid, hid⟩

theorem Armed.effect (hs : Named s) (harmed : Armed s) (h : Effect s t) : Armed t := by
  have ht := hs.effect h
  intro hwait
  cases h with
  | arm => exact .inr (by simp [Table.hasTimer, Table.handle_setTimer])
  | push params _ hhas => exact .inr hhas
  | process l _ _ hf => exact .inl ⟨_, rfl, hf⟩
  | delayed l params hrun hl hf =>
    obtain ⟨r, hr, -⟩ | hhas := harmed hwait
    · rw [hrun] at hr
      cases hr
    · refine .inr (hs.hasTimer_actions (fun m hm hid => ?_) ht.linked hhas)
      refine (hs.fired hl m).mpr ⟨hm, ?_⟩
      rw [hid, hs.key l hl params hf]
      exact params.k.property.symm
  | done _ _ hq => exact absurd hq hwait
  | schedule l params rest d hrun _ _ _ => exact .inl ⟨_, hrun, hs.head l hrun⟩
  | call l params rest hrun _ _ => exact .inl ⟨_, rfl, hs.head l hrun⟩
  | resume l params _ hf => exact .inl ⟨_, rfl, hf⟩
  | ended l params params' hrun hf =>
    obtain ⟨r, hr, hr'⟩ | hhas := harmed hwait
    · rw [hrun] at hr
      cases hr
      rw [hf] at hr'
      cases hr'
    · refine .inr (hs.hasTimer_actions (fun m hm _ => ?_) ht.linked hhas)
      simpa [State.finish] using hm

theorem Recorded.push (hs : Recorded s) (hfresh : params.f = s.count) :
    Recorded (s.push params) := by
  refine ⟨by simp [State.push, hs.log], List.pairwise_append.mpr
    ⟨hs.increasing, List.pairwise_singleton _ _, fun p hp q hq => ?_⟩, fun p hp => ?_⟩
  · obtain rfl := List.mem_singleton.mp hq
    exact hfresh ▸ hs.fresh p hp
  · obtain hp | hp := List.mem_append.mp hp
    · exact Nat.lt_succ_of_lt (hs.fresh p hp)
    · obtain rfl := List.mem_singleton.mp hp
      exact hfresh ▸ Nat.lt_succ_self _

theorem Recorded.effect (hs : Recorded s) (h : Effect s t) : Recorded t := by
  cases h with
  | arm params hfresh _ =>
    have hpush := hs.push hfresh
    exact ⟨hpush.log, hpush.increasing, hpush.fresh⟩
  | push params hfresh _ => exact hs.push hfresh
  | process | delayed | done | resume | ended => exact ⟨hs.log, hs.increasing, hs.fresh⟩
  | schedule l params rest d _ hq _ _ | call l params rest _ hq _ =>
    exact ⟨by simp [hs.log, hq], hs.increasing, hs.fresh⟩

theorem Recorded.lt_head {rest : List Params} (hs : Recorded s)
    (hq : s.actionQueue = params :: rest) : ∀ p ∈ s.taken, p.f < params.f := by
  intro p hp
  have hpairs := hs.increasing
  rw [hs.log, hq, List.pairwise_append] at hpairs
  exact hpairs.2.2 p hp params List.mem_cons_self

theorem Recorded.not_taken {rest : List Params} (hs : Recorded s)
    (hq : s.actionQueue = params :: rest) : params ∉ s.taken :=
  fun hp => (hs.lt_head hq params hp).false

theorem Fated.same (hs : Fated s) (htaken : t.taken = s.taken) (hran : t.ran = s.ran)
    (hpending : ∀ p, Pending t p ↔ Pending s p) : Fated t where
  ran_taken p hp := htaken ▸ hs.ran_taken p (hran ▸ hp)
  ran_nodup := hran ▸ hs.ran_nodup
  immediate := by rw [hran, htaken, hs.immediate]
  pending p hp := by
    rw [htaken, hran]
    exact hs.pending p ((hpending p).mp hp)
  fate p hp hd := by
    rw [hran, hpending, Superseded, htaken]
    exact hs.fate p (htaken ▸ hp) hd

/-- The timer of an action fires and the action is called. -/
theorem Fated.call_delayed (hs : Fated s) (hparams : Pending s params)
    (htaken : t.taken = s.taken) (hran : t.ran = s.ran ++ [params])
    (hpending : ∀ p, Pending t p ↔ Pending s p ∧ p ≠ params) : Fated t := by
  obtain ⟨hmem, hd, hnew⟩ := hs.pending params hparams
  refine ⟨fun p hp => ?_, ?_, ?_, fun p hp => ?_, fun p hp hpd => ?_⟩
  · rw [htaken]
    obtain hp | hp := List.mem_append.mp (hran ▸ hp)
    · exact hs.ran_taken p hp
    · exact List.mem_singleton.mp hp ▸ hmem
  · rw [hran, ← List.concat_eq_append, List.nodup_concat]
    exact ⟨hnew, hs.ran_nodup⟩
  · rw [hran, htaken, List.filter_append, hs.immediate]
    simp [hd]
  · obtain ⟨hp, hne⟩ := (hpending p).mp hp
    obtain ⟨hmem, hd, hnew⟩ := hs.pending p hp
    rw [htaken, hran]
    exact ⟨hmem, hd, by simp [hnew, hne]⟩
  · rw [hran, hpending, Superseded, htaken]
    by_cases hne : p = params
    · exact .inl (by simp [hne])
    · obtain hr | hr | hr := hs.fate p (htaken ▸ hp) hpd
      · exact .inl (List.mem_append_left _ hr)
      · exact .inr (.inl ⟨hr, hne⟩)
      · exact .inr (.inr hr)

/-- An action without a delay is taken out and called. -/
theorem Fated.call (hs : Fated s) (hd : ¬params.Delayed) (hnew : params ∉ s.taken)
    (htaken : t.taken = s.taken ++ [params]) (hran : t.ran = s.ran ++ [params])
    (hpending : ∀ p, Pending t p ↔ Pending s p) : Fated t := by
  refine ⟨fun p hp => ?_, ?_, ?_, fun p hp => ?_, fun p hp hpd => ?_⟩
  · rw [htaken]
    obtain hp | hp := List.mem_append.mp (hran ▸ hp)
    · exact List.mem_append_left _ (hs.ran_taken p hp)
    · exact List.mem_append_right _ hp
  · rw [hran, ← List.concat_eq_append, List.nodup_concat]
    exact ⟨fun hmem => hnew (hs.ran_taken params hmem), hs.ran_nodup⟩
  · rw [hran, htaken, List.filter_append, List.filter_append, hs.immediate]
  · obtain ⟨hmem, hpd, hnot⟩ := hs.pending p ((hpending p).mp hp)
    rw [htaken, hran]
    refine ⟨List.mem_append_left _ hmem, hpd, fun hr => ?_⟩
    obtain hr | hr := List.mem_append.mp hr
    · exact hnot hr
    · exact hd (List.mem_singleton.mp hr ▸ hpd)
  · rw [hran, hpending]
    obtain hp | hp := List.mem_append.mp (htaken ▸ hp)
    · obtain hr | hr | ⟨later, hlater, hr⟩ := hs.fate p hp hpd
      · exact .inl (List.mem_append_left _ hr)
      · exact .inr (.inl hr)
      · exact .inr (.inr ⟨later, htaken ▸ List.mem_append_left _ hlater, hr⟩)
    · exact absurd (List.mem_singleton.mp hp ▸ hpd) hd

/-- An action with a delay is taken out and gets the timer of its key. -/
theorem Fated.schedule (hs : Fated s) (hd : params.Delayed) (hnew : ∀ p ∈ s.taken, p.f < params.f)
    (htaken : t.taken = s.taken ++ [params]) (hran : t.ran = s.ran)
    (hpending : ∀ p, Pending t p ↔ Pending s p ∧ p.k ≠ params.k ∨ p = params) : Fated t := by
  have hnot : params ∉ s.ran := fun hr => (hnew params (hs.ran_taken params hr)).false
  refine ⟨fun p hp => ?_, hran ▸ hs.ran_nodup, ?_, fun p hp => ?_, fun p hp hpd => ?_⟩
  · rw [htaken]
    exact List.mem_append_left _ (hs.ran_taken p (hran ▸ hp))
  · rw [hran, htaken, List.filter_append, hs.immediate]
    simp [hd]
  · rw [htaken, hran]
    obtain ⟨hp, -⟩ | rfl := (hpending p).mp hp
    · obtain ⟨hmem, hrest⟩ := hs.pending p hp
      exact ⟨List.mem_append_left _ hmem, hrest⟩
    · exact ⟨by simp, hd, hnot⟩
  · rw [hran, hpending]
    obtain hp | hp := List.mem_append.mp (htaken ▸ hp)
    · obtain hr | hr | ⟨later, hlater, hr⟩ := hs.fate p hp hpd
      · exact .inl hr
      · by_cases hk : p.k = params.k
        · exact .inr (.inr ⟨params, by simp [htaken], hd, hk.symm, hnew p hp⟩)
        · exact .inr (.inl (.inl ⟨hr, hk⟩))
      · exact .inr (.inr ⟨later, htaken ▸ List.mem_append_left _ hlater, hr⟩)
    · exact .inr (.inl (.inr (List.mem_singleton.mp hp)))

theorem Named.pending_arm (hs : Named s)
    (htable : t.table = s.table.setTimer actionsTimer .processActions s.clock 10 false) :
    Pending t params ↔ Pending s params := by
  simp only [Pending, htable, hs.linked.mem_setTimer]
  constructor
  · rintro ⟨l, ⟨hl, -⟩ | rfl, hf⟩
    · exact ⟨l, hl, hf⟩
    · cases hf
  · rintro ⟨l, hl, hf⟩
    refine ⟨l, .inl ⟨hl, ?_⟩, hf⟩
    rw [hs.key l hl params hf]
    exact params.k.property

theorem Named.pending_fire (hs : Named s) (hl : l ∈ s.table.live)
    (htable : t.table = s.table.begin s.clock l) :
    Pending t params ↔ Pending s params ∧ l.action ≠ .f params := by
  simp only [Pending, htable, hs.fired hl]
  constructor
  · rintro ⟨m, ⟨hm, hid⟩, hf⟩
    refine ⟨⟨m, hm, hf⟩, fun hf' => hid ?_⟩
    rw [hs.key m hm params hf, hs.key l hl params hf']
  · rintro ⟨⟨m, hm, hf⟩, hne⟩
    refine ⟨m, ⟨hm, fun hid => hne ?_⟩, hf⟩
    rw [← hs.linked.eq_of_id hm hl hid]
    exact hf

theorem Named.pending_schedule {params' : Params} {d : ℚ} (hs : Named s)
    (htable : t.table = s.table.setTimer params'.k (.f params') s.clock d false) :
    Pending t params ↔ Pending s params ∧ params.k ≠ params'.k ∨ params = params' := by
  simp only [Pending, htable, hs.linked.mem_setTimer]
  constructor
  · rintro ⟨m, ⟨hm, hid⟩ | rfl, hf⟩
    · refine .inl ⟨⟨m, hm, hf⟩, fun hk => hid ?_⟩
      rw [hs.key m hm params hf, hk]
    · cases hf
      exact .inr rfl
  · rintro (⟨⟨m, hm, hf⟩, hk⟩ | rfl)
    · refine ⟨m, .inl ⟨hm, fun hid => hk (Subtype.ext ?_)⟩, hf⟩
      rw [← hs.key m hm params hf, hid]
    · exact ⟨_, .inr rfl, rfl⟩

theorem Fated.effect (hs : Fated s) (hnamed : Named s) (hrecorded : Recorded s)
    (h : Effect s t) : Fated t := by
  cases h with
  | arm => exact hs.same rfl rfl fun p => hnamed.pending_arm rfl
  | push => exact hs.same rfl rfl fun p => Iff.rfl
  | process l _ hl hf =>
    refine hs.same rfl rfl fun p => (hnamed.pending_fire hl rfl).trans (and_iff_left ?_)
    rw [hf]
    exact fun h => by cases h
  | delayed l params _ hl hf =>
    refine hs.call_delayed ⟨l, hl, hf⟩ rfl rfl fun p => ?_
    rw [hnamed.pending_fire hl rfl, hf]
    simp [eq_comm]
  | done l | ended l => exact hs.same rfl rfl fun p => by simp [Pending, State.finish]
  | schedule l params rest d _ hq hd hpos =>
    exact hs.schedule ⟨d, hd, hpos⟩ (hrecorded.lt_head hq) rfl rfl fun p =>
      hnamed.pending_schedule rfl
  | call l params rest _ hq hd =>
    exact hs.call hd (hrecorded.not_taken hq) rfl rfl fun p => Iff.rfl
  | resume => exact hs.same rfl rfl fun p => Iff.rfl

/-- What holds of every state that a run reaches. -/
structure Sound (s : State) : Prop where
  named : Named s
  armed : Armed s
  recorded : Recorded s
  fated : Fated s

theorem Sound.init (now : ℚ) : Sound (ActionQueue.init now) where
  named := ⟨.empty, by simp [ActionQueue.init, Table.empty],
    by simp [ActionQueue.init, Table.empty], by simp [ActionQueue.init, Table.empty],
    by simp [ActionQueue.init]⟩
  armed := by simp [Armed, ActionQueue.init]
  recorded := ⟨rfl, .nil, by simp [ActionQueue.init]⟩
  fated := ⟨by simp [ActionQueue.init], .nil, rfl, by simp [Pending, ActionQueue.init, Table.empty],
    by simp [ActionQueue.init]⟩

theorem Sound.clock (hs : Sound s) (now : ℚ) : Sound { s with clock := now } where
  named := ⟨hs.named.linked, hs.named.once, hs.named.actions, hs.named.key, hs.named.head⟩
  armed := hs.armed
  recorded := ⟨hs.recorded.log, hs.recorded.increasing, hs.recorded.fresh⟩
  fated := hs.fated.same rfl rfl fun _ => Iff.rfl

theorem Sound.effect (hs : Sound s) (h : Effect s t) : Sound t where
  named := hs.named.effect h
  armed := hs.armed.effect hs.named h
  recorded := hs.recorded.effect h
  fated := hs.fated.effect hs.named hs.recorded h

theorem effect_of_step {a : ℚ × Action} (h : step s a = some t) :
    Effect { s with clock := a.1 } t := by
  unfold step at h
  split_ifs at h
  exact effect_of_act h

theorem Sound.step {a : ℚ × Action} (hs : Sound s) (h : step s a = some t) : Sound t :=
  (hs.clock a.1).effect (effect_of_step h)

end Steps

theorem run_sound {hist : List (State × (ℚ × Action))} {t : State} {now : ℚ}
    (run : Run step (init now) hist t) : Sound t :=
  run.invariant (fun _ _ _ hs h => hs.step h) (.init now)

/-- What is recorded stays recorded. -/
structure Extends (s t : State) : Prop where
  queued : s.queued <+: t.queued
  taken : s.taken <+: t.taken
  ran : s.ran <+: t.ran

theorem Extends.refl (s : State) : Extends s s :=
  ⟨List.prefix_rfl, List.prefix_rfl, List.prefix_rfl⟩

theorem Extends.trans {s t u : State} (h : Extends s t) (h' : Extends t u) : Extends s u :=
  ⟨h.queued.trans h'.queued, h.taken.trans h'.taken, h.ran.trans h'.ran⟩

theorem extends_step {s t : State} {a : ℚ × Action} (h : step s a = some t) : Extends s t := by
  cases effect_of_step h with
  | arm | push => exact ⟨List.prefix_append _ _, List.prefix_rfl, List.prefix_rfl⟩
  | process | done | resume | ended => exact ⟨List.prefix_rfl, List.prefix_rfl, List.prefix_rfl⟩
  | delayed => exact ⟨List.prefix_rfl, List.prefix_rfl, List.prefix_append _ _⟩
  | schedule => exact ⟨List.prefix_rfl, List.prefix_append _ _, List.prefix_rfl⟩
  | call => exact ⟨List.prefix_rfl, List.prefix_append _ _, List.prefix_append _ _⟩

section Moves

variable {s t : State} {a : ℚ × Action} {l : Live String Callback} {params : Params}

theorem step_head (h : step s a = some t) (hrun : s.running = some ⟨l, none⟩)
    (hwait : s.actionQueue ≠ []) :
    t.running = s.running ∧ t.taken = s.taken ∨ s.taken.length < t.taken.length := by
  cases effect_of_step h with
  | arm | push => exact .inl ⟨rfl, rfl⟩
  | process _ hnone | delayed _ _ hnone => simp [hrun] at hnone
  | done _ _ hq => exact absurd hq hwait
  | schedule | call => exact .inr (by simp)
  | resume _ _ hin | ended _ _ _ hin => simp [hrun] at hin

theorem step_inside (h : step s a = some t) (hrun : s.running = some ⟨l, some params⟩) :
    (t.running = s.running ∧ t.taken = s.taken) ∨
      (l.action = .processActions ∧ t.running = some ⟨l, none⟩) ∨
      (l.action ≠ .processActions ∧ t.running = none) := by
  cases effect_of_step h with
  | arm | push => exact .inl ⟨rfl, rfl⟩
  | process _ hnone | delayed _ _ hnone => simp [hrun] at hnone
  | done _ hin | schedule _ _ _ _ hin | call _ _ _ hin => simp [hrun] at hin
  | resume _ _ hin hf =>
    obtain ⟨rfl, -⟩ : l = _ ∧ _ := by simpa [hrun] using hin
    exact .inr (.inl ⟨hf, rfl⟩)
  | ended _ _ params' hin hf =>
    obtain ⟨rfl, -⟩ : l = _ ∧ _ := by simpa [hrun] using hin
    exact .inr (.inr ⟨fun h => by simp [h] at hf, rfl⟩)

/-- A timer of the browser is gone when it has fired, or when its key was taken. -/
theorem step_gone (hs : Sound s) (h : step s a = some t) (hl : l ∈ s.table.live)
    (hgone : l ∉ t.table.live) :
    (l.action = .processActions ∧ t.running = some ⟨l, none⟩) ∨
      ∃ params, l.action = .f params ∧ ¬Pending t params := by
  have hnamed := (hs.clock a.1).named
  cases heffect : effect_of_step h with
  | arm params' _ hno =>
    refine absurd (hnamed.linked.mem_setTimer.mpr (.inl ⟨hl, fun hid => ?_⟩)) hgone
    simp [hnamed.linked.hasTimer_iff.mpr ⟨l, hl, hid⟩] at hno
  | push | call | resume => exact absurd hl hgone
  | done m | ended m => exact absurd (by simpa [State.finish] using hl) hgone
  | process m _ hm hf =>
    obtain rfl : l = m := by
      by_contra hne
      exact hgone ((hnamed.fired hm l).mpr ⟨hl, fun hid => hne (hnamed.linked.eq_of_id hl hm hid)⟩)
    exact .inl ⟨hf, rfl⟩
  | delayed m params _ hm hf =>
    obtain rfl : l = m := by
      by_contra hne
      exact hgone ((hnamed.fired hm l).mpr ⟨hl, fun hid => hne (hnamed.linked.eq_of_id hl hm hid)⟩)
    exact .inr ⟨params, hf, fun hp => ((hnamed.pending_fire hm rfl).mp hp).2 hf⟩
  | schedule m params' rest d _ hq hd hpos =>
    have hid : l.id = params'.k := by
      by_contra hne
      exact hgone (hnamed.linked.mem_setTimer.mpr (.inl ⟨hl, hne⟩))
    cases hf : l.action with
    | processActions => exact absurd (hid.symm.trans (hnamed.actions l hl hf)) params'.k.property
    | f params =>
      refine .inr ⟨params, rfl, fun hp => ?_⟩
      obtain ⟨-, hk⟩ | rfl := (hnamed.pending_schedule rfl).mp hp
      · exact hk (Subtype.ext ((hnamed.key l hl params hf).symm.trans hid))
      · exact hs.recorded.not_taken hq (hs.fated.pending _ ⟨l, hl, hf⟩).1

end Moves

/-- A callback that has not returned goes on. A timer fires or is cleared, if control returns to
the event loop again and again. -/
structure Fair {s : State} (p : Path step s) : Prop where
  moves : ∀ i, (p.state i).running ≠ none → ∃ j ≥ i,
    ¬((p.state j).running = (p.state i).running ∧ (p.state j).taken = (p.state i).taken)
  fires : ∀ i, (∀ j ≥ i, ∃ k ≥ j, (p.state k).running = none) →
    ∀ l ∈ (p.state i).table.live, ∃ j ≥ i, l ∉ (p.state j).table.live

namespace Fair

variable {s : State} {p : Path step s} {hist : List (State × (ℚ × Action))} {now : ℚ} {i j : ℕ}
  {l : Live String Callback} {params : Params}

/-- Another action is taken out, at some time from `i` on. -/
def Takes (p : Path step s) (i : ℕ) : Prop :=
  ∃ j ≥ i, (p.state i).taken.length < (p.state j).taken.length

theorem extends_path (p : Path step s) (hij : i ≤ j) : Extends (p.state i) (p.state j) :=
  p.related Extends.refl (fun _ _ _ => Extends.trans) (fun _ _ _ => extends_step) hij

theorem sound (run : Run step (init now) hist s) (p : Path step s) (i : ℕ) :
    Sound (p.state i) := by
  obtain ⟨_, run'⟩ := p.reaches i
  exact run_sound (run.trans run')

/-- To see that an action is taken out, it is enough to look from a later moment on. -/
theorem takes_of_later (hs : ∀ i, Sound (p.state i)) (hij : i ≤ j)
    (hwait : (p.state i).actionQueue ≠ [])
    (h : (p.state j).actionQueue ≠ [] → Takes p j) : Takes p i := by
  have hext := extends_path p hij
  by_cases hmore : (p.state i).taken.length < (p.state j).taken.length
  · exact ⟨j, hij, hmore⟩
  have hsame : (p.state j).taken.length = (p.state i).taken.length :=
    Nat.le_antisymm (Nat.le_of_not_lt hmore) hext.taken.length_le
  have hwait' : (p.state j).actionQueue ≠ [] := by
    intro hnil
    have hlength := hext.queued.length_le
    rw [(hs i).recorded.log, (hs j).recorded.log, hnil] at hlength
    have hpos := List.length_pos_of_ne_nil hwait
    simp only [List.length_append, List.length_nil] at hlength
    omega
  obtain ⟨k, hjk, hk⟩ := h hwait'
  exact ⟨k, hij.trans hjk, hsame ▸ hk⟩

theorem exists_move (hp : Fair p) (hrun : (p.state i).running ≠ none) : ∃ k a, i ≤ k ∧
    (p.state k).running = (p.state i).running ∧ (p.state k).taken = (p.state i).taken ∧
    step (p.state k) a = some (p.state (k + 1)) ∧
    ¬((p.state (k + 1)).running = (p.state i).running ∧
      (p.state (k + 1)).taken = (p.state i).taken) := by
  obtain ⟨j, hij, hj⟩ := hp.moves i hrun
  obtain ⟨k, a, hik, ⟨hrun, htaken⟩, hstep, hmoved⟩ := p.exists_step
    (P := fun u => u.running = (p.state i).running ∧ u.taken = (p.state i).taken) hij ⟨rfl, rfl⟩ hj
  exact ⟨k, a, hik, hrun, htaken, hstep, hmoved⟩

theorem takes_head (hs : ∀ i, Sound (p.state i)) (hp : Fair p)
    (hrun : (p.state i).running = some ⟨l, none⟩) (hwait : (p.state i).actionQueue ≠ []) :
    Takes p i := by
  obtain ⟨k, a, hik, hrun', htaken, hstep, hmoved⟩ := hp.exists_move (i := i) (by simp [hrun])
  refine takes_of_later hs hik hwait fun hwait' => ?_
  obtain hsame | hmore := step_head hstep (hrun'.trans hrun) hwait'
  · rw [hrun', htaken] at hsame
    exact absurd hsame hmoved
  · exact ⟨k + 1, k.le_succ, hmore⟩

theorem takes_process (hs : ∀ i, Sound (p.state i)) (hp : Fair p) {r : Running}
    (hrun : (p.state i).running = some r) (hf : r.timer.action = .processActions)
    (hwait : (p.state i).actionQueue ≠ []) : Takes p i := by
  obtain ⟨l, called⟩ := r
  cases called with
  | none => exact takes_head hs hp hrun hwait
  | some params =>
    obtain ⟨k, a, hik, hrun', htaken, hstep, hmoved⟩ := hp.exists_move (i := i) (by simp [hrun])
    refine takes_of_later hs (hik.trans k.le_succ) hwait fun hwait' => ?_
    obtain hsame | ⟨-, hhead⟩ | ⟨hne, -⟩ := step_inside hstep (hrun'.trans hrun)
    · rw [hrun', htaken] at hsame
      exact absurd hsame hmoved
    · exact takes_head hs hp hhead hwait'
    · exact absurd hf hne

theorem returns (hp : Fair p) {r : Running} (hs : ∀ i, Sound (p.state i))
    (hrun : (p.state i).running = some r) (hf : r.timer.action ≠ .processActions) :
    ∃ j ≥ i, (p.state j).running = none := by
  obtain ⟨l, called⟩ := r
  cases called with
  | none => exact absurd ((hs i).named.head l hrun) hf
  | some params =>
    obtain ⟨k, a, hik, hrun', htaken, hstep, hmoved⟩ := hp.exists_move (i := i) (by simp [hrun])
    obtain hsame | ⟨hp, -⟩ | ⟨-, hnone⟩ := step_inside hstep (hrun'.trans hrun)
    · rw [hrun', htaken] at hsame
      exact absurd hsame hmoved
    · exact absurd hp hf
    · exact ⟨k + 1, hik.trans k.le_succ, hnone⟩

theorem takes_loop (hs : ∀ i, Sound (p.state i)) (hp : Fair p)
    (hrun : (p.state i).running = none) (hwait : (p.state i).actionQueue ≠ []) : Takes p i := by
  obtain ⟨r, hr, -⟩ | hhas := (hs i).armed hwait
  · simp [hrun] at hr
  obtain ⟨l, hl, hid⟩ := (hs i).named.linked.hasTimer_iff.mp hhas
  by_cases hloop : ∀ j ≥ i, ∃ k ≥ j, (p.state k).running = none
  · obtain ⟨j, hij, hj⟩ := hp.fires i hloop l hl
    obtain ⟨k, a, hik, hlk, hstep, hgone⟩ :=
      p.exists_step (P := fun u => l ∈ u.table.live) hij hl hj
    refine takes_of_later hs (hik.trans k.le_succ) hwait fun hwait' => ?_
    obtain ⟨-, hhead⟩ | ⟨params, hf, -⟩ := step_gone (hs k) hstep hlk hgone
    · exact takes_head hs hp hhead hwait'
    · exact absurd (((hs k).named.key l hlk params hf).symm.trans hid) params.k.property
  · -- from some moment on control stays in the loop of `processActions`
    simp only [not_forall, not_exists, not_and] at hloop
    obtain ⟨j, hij, hbusy⟩ := hloop
    refine takes_of_later hs hij hwait fun hwait' => ?_
    obtain ⟨r, hr⟩ := Option.ne_none_iff_exists'.mp (hbusy j le_rfl)
    by_cases hf : r.timer.action = .processActions
    · exact takes_process hs hp hr hf hwait'
    · obtain ⟨k, hjk, hnone⟩ := hp.returns hs hr hf
      exact absurd hnone (hbusy k hjk)

theorem takes (hs : ∀ i, Sound (p.state i)) (hp : Fair p)
    (hwait : (p.state i).actionQueue ≠ []) : Takes p i := by
  cases hrun : (p.state i).running with
  | none => exact takes_loop hs hp hrun hwait
  | some r =>
    by_cases hf : r.timer.action = .processActions
    · exact takes_process hs hp hrun hf hwait
    · obtain ⟨j, hij, hnone⟩ := hp.returns hs hrun hf
      exact takes_of_later hs hij hwait (takes_loop hs hp hnone)

theorem takes_all (hs : ∀ i, Sound (p.state i)) (hp : Fair p) {n : ℕ}
    (hn : n ≤ s.queued.length) : ∃ i, n ≤ (p.state i).taken.length := by
  induction n with
  | zero => exact ⟨0, Nat.zero_le _⟩
  | succ n ih =>
    obtain ⟨i, hi⟩ := ih (by omega)
    by_cases hdone : n < (p.state i).taken.length
    · exact ⟨i, hdone⟩
    have hwait : (p.state i).actionQueue ≠ [] := by
      intro hnil
      have hlength := (extends_path p (Nat.zero_le i)).queued.length_le
      rw [p.start, (hs i).recorded.log, hnil, List.append_nil] at hlength
      omega
    obtain ⟨j, -, hj⟩ := takes hs hp hwait
    exact ⟨j, by omega⟩

theorem exists_taken (hs : ∀ i, Sound (p.state i)) (hp : Fair p) (hq : params ∈ s.queued) :
    ∃ i, params ∈ (p.state i).taken := by
  obtain ⟨i, hi⟩ := takes_all hs hp le_rfl
  have hqueued := (extends_path p (Nat.zero_le i)).queued
  rw [p.start] at hqueued
  have htaken : (p.state i).taken <+: (p.state i).queued :=
    (hs i).recorded.log ▸ List.prefix_append _ _
  exact ⟨i, (List.prefix_of_prefix_length_le hqueued htaken hi).subset hq⟩

theorem count_ran (hs : ∀ i, Sound (p.state i)) (hran : params ∈ (p.state i).ran) :
    ∀ j ≥ i, (p.state j).ran.count params = 1 := fun j hij =>
  List.count_eq_one_of_mem (hs j).fated.ran_nodup ((extends_path p hij).ran.subset hran)

theorem immediate_ran (hs : ∀ i, Sound (p.state i)) (hp : Fair p) (hq : params ∈ s.queued)
    (hd : ¬params.Delayed) : ∃ i, ∀ j ≥ i, (p.state j).ran.count params = 1 := by
  obtain ⟨i, hi⟩ := exists_taken hs hp hq
  have hmem : params ∈ (p.state i).taken.filter (¬·.Delayed) := by simp [hi, hd]
  rw [← (hs i).fated.immediate, List.mem_filter] at hmem
  exact ⟨i, count_ran hs hmem.1⟩

theorem exists_not_pending (params : Params) (hs : ∀ i, Sound (p.state i)) (hp : Fair p)
    (hloop : ∀ i, ∃ j ≥ i, (p.state j).running = none) (i : ℕ) :
    ∃ j ≥ i, ¬Pending (p.state j) params := by
  by_cases hpending : Pending (p.state i) params
  · obtain ⟨l, hl, hf⟩ := hpending
    obtain ⟨j, hij, hj⟩ := hp.fires i (fun j _ => hloop j) l hl
    obtain ⟨k, a, hik, hlk, hstep, hgone⟩ :=
      p.exists_step (P := fun u => l ∈ u.table.live) hij hl hj
    obtain ⟨hf', -⟩ | ⟨params', hf', hnot⟩ := step_gone (hs k) hstep hlk hgone
    · rw [hf] at hf'
      cases hf'
    · rw [hf] at hf'
      cases hf'
      exact ⟨k + 1, hik.trans k.le_succ, hnot⟩
  · exact ⟨i, le_rfl, hpending⟩

theorem delayed_settled (hs : ∀ i, Sound (p.state i)) (hp : Fair p)
    (hloop : ∀ i, ∃ j ≥ i, (p.state j).running = none) (hq : params ∈ s.queued)
    (hd : params.Delayed) :
    ∃ i, (∀ j ≥ i, (p.state j).ran.count params = 1) ∨
      (∀ j, params ∉ (p.state j).ran) ∧ ∀ j ≥ i, Superseded (p.state j) params := by
  by_cases hran : ∃ i, params ∈ (p.state i).ran
  · obtain ⟨i, hi⟩ := hran
    exact ⟨i, .inl (count_ran hs hi)⟩
  obtain ⟨i, hi⟩ := exists_taken hs hp hq
  obtain ⟨j, hij, hj⟩ := exists_not_pending params hs hp hloop i
  have htaken := (extends_path p hij).taken.subset hi
  obtain hr | hr | ⟨later, hlater, hr⟩ := (hs j).fated.fate params htaken hd
  · exact absurd ⟨j, hr⟩ hran
  · exact absurd hr hj
  · exact ⟨j, .inr ⟨fun k hk => hran ⟨k, hk⟩, fun k hjk =>
      ⟨later, (extends_path p hjk).taken.subset hlater, hr⟩⟩⟩

end Fair

/-- No action is stranded: the queue is armed whenever control is in the event loop, actions
without a delay run once and in order, the others run once or lose their key to a later one, and
a name has one timer. -/
theorem no_action_stranded {hist : List (State × (ℚ × Action))} {t : State} {now : ℚ}
    (run : Run step (init now) hist t) :
    (t.running = none → t.actionQueue ≠ [] →
      ∃ l ∈ t.table.live, l.id = actionsTimer ∧ l.action = .processActions) ∧
    (∀ id, t.table.hasTimer id = true ↔ ∃ l ∈ t.table.live, l.id = id) ∧
    (∀ l ∈ t.table.live, t.table.handle l.id = some l.number ∧
      ∀ m ∈ t.table.live, m.id = l.id → m = l) ∧
    t.ran.Nodup ∧ t.ran.filter (¬·.Delayed) <+: t.queued.filter (¬·.Delayed) ∧
    ∀ p : Path step t, Fair p →
      (∀ params ∈ t.queued, ¬params.Delayed → ∃ i, ∀ j ≥ i, (p.state j).ran.count params = 1) ∧
      ((∀ i, ∃ j ≥ i, (p.state j).running = none) → ∀ params ∈ t.queued, params.Delayed →
        ∃ i, (∀ j ≥ i, (p.state j).ran.count params = 1) ∨
          (∀ j, params ∉ (p.state j).ran) ∧ ∀ j ≥ i, Superseded (p.state j) params) := by
  have ht := run_sound run
  refine ⟨fun hrun hwait => ?_, fun id => ht.named.linked.hasTimer_iff, fun l hl =>
    ⟨ht.named.linked.handle l hl, fun m hm hid => ht.named.linked.eq_of_id hm hl hid⟩,
    ht.fated.ran_nodup, ?_, fun p hp => ?_⟩
  · obtain ⟨r, hr, -⟩ | hhas := ht.armed hwait
    · simp [hrun] at hr
    · obtain ⟨l, hl, hid⟩ := ht.named.linked.hasTimer_iff.mp hhas
      cases hf : l.action with
      | processActions => exact ⟨l, hl, hid, hf⟩
      | f params =>
        exact absurd ((ht.named.key l hl params hf).symm.trans hid) params.k.property
  · rw [ht.fated.immediate, ht.recorded.log, List.filter_append]
    exact List.prefix_append _ _
  · have hs := Fair.sound run p
    exact ⟨fun _ hq hd => Fair.immediate_ran hs hp hq hd,
      fun hloop _ hq hd => Fair.delayed_settled hs hp hloop hq hd⟩

/-- A change is queued with a delay, and a click without; both run. -/
def clicks : List (ℚ × Action) :=
  [(0, .queueAction ⟨"change", by decide⟩ (some 5) false),
   (1, .queueAction ⟨"click", by decide⟩ none false),
   (10, .fire ⟨0, actionsTimer, .processActions, 10, none⟩),
   (10, .shift), (10, .shift), (11, .return), (11, .shift),
   (15, .fire ⟨1, "change", .f ⟨0, ⟨"change", by decide⟩, some 5⟩, 15, none⟩),
   (16, .return)]

theorem clicks_run : (exec step (init 0) clicks).isSome = true := by decide +kernel

theorem no_action_stranded_clicks : ∃ hist t, Run step (init 0) hist t ∧ t.queued.length = 2 ∧
    ∀ params ∈ t.queued, ¬params.Delayed → t.ran.count params = 1 := by
  obtain ⟨hist, run, -⟩ := run_final clicks_run
  have hidle : (final step (init 0) clicks clicks_run).running = none := by decide +kernel
  have hlive : (final step (init 0) clicks clicks_run).table.live = [] := by decide +kernel
  have hfair : Fair (Path.stay step (final step (init 0) clicks clicks_run)) := by
    refine ⟨fun i hrun => absurd hidle hrun, fun i _ l hl => absurd hl ?_⟩
    exact hlive ▸ List.not_mem_nil
  refine ⟨hist, _, run, by decide +kernel, fun params hq hd => ?_⟩
  obtain ⟨i, hi⟩ := ((no_action_stranded run).2.2.2.2.2 _ hfair).1 params hq hd
  exact hi i le_rfl

end GoraddServe.ActionQueue
