import GoraddServe.LabelledRuns
import GoraddServe.NamedTimers
import Mathlib.Data.List.Chain
import Mathlib.Tactic.Linarith
import Mathlib.Tactic.Ring

/-!
# Throttled functions

Code of the page calls `throttle`, `setTimer` and `clearTimer` under any names, from the event
loop and from the callbacks of timers. The browser fires a timer when it is due or later, and
never while a callback is running. A callback ends when its action returns or throws.
-/
namespace GoraddServe.Throttle
open LabelledRuns NamedTimers

inductive Action (K A : Type*) where
  | throttle (id : K) (minInterval : ℚ) (f : A)
  | setTimer (id : K) (action : A) (intDelay : ℚ) (blnPeriodic : Bool)
  | clearTimer (id : K)
  | fire (l : Live K A)
  | return
  | throw

/-- The timers, the callback that is running, the latest time that was read, and a record of
the actions that were started: the name of the timer and the time. -/
structure State (K A : Type*) where
  table : Table K A
  running : Option (Live K A)
  clock : ℚ
  started : List (K × ℚ)

variable {K A : Type*} [DecidableEq K]

def init (now : ℚ) : State K A := ⟨.empty, none, now, []⟩

def State.act [DecidableEq A] (s : State K A) (now : ℚ) : Action K A → Option (State K A)
  | .throttle id minInterval f => some { s with table := s.table.throttle id f now minInterval }
  | .setTimer id action intDelay blnPeriodic =>
    some { s with table := s.table.setTimer id action now intDelay blnPeriodic }
  | .clearTimer id => some { s with table := s.table.clearTimer id }
  | .fire l =>
    if s.running = none ∧ l ∈ s.table.live ∧ l.due ≤ now then
      some { s with table := s.table.begin now l, running := some l,
                    started := s.started ++ [(l.id, now)] }
    else none
  | .return => s.running.map fun l => { s with table := s.table.finish now l, running := none }
  | .throw => s.running.map fun _ => { s with running := none }

/-- A step at a time that is not before the one of the step before. -/
def step [DecidableEq A] (s : State K A) (a : ℚ × Action K A) : Option (State K A) :=
  if s.clock ≤ a.1 then (s.act a.1 a.2).map ({ · with clock := a.1 }) else none

def State.starts (s : State K A) (id : K) : List ℚ :=
  (s.started.filter (·.1 = id)).map Prod.snd

/-- Each time is at least `minInterval` after the one before it. -/
def Spaced (minInterval : ℚ) (times : List ℚ) : Prop :=
  times.IsChain fun x y => x + minInterval ≤ y

/-- The name is used by calls of `throttle` only, with one interval. -/
def Action.Throttles (id : K) (minInterval : ℚ) : Action K A → Prop
  | .throttle k m _ => k = id → m = minInterval
  | .setTimer k .. => k ≠ id
  | .clearTimer k => k ≠ id
  | _ => True

/-- A call of `throttle` does not come while the entry it finds has no end: the first execution
of the entry has not returned, or has thrown. When the interval has passed already, or the
last start was not after time zero, it may. -/
def Careful (id : K) (minInterval : ℚ) (s : State K A) (a : ℚ × Action K A) : Prop :=
  ∀ f timer, a.2 = .throttle id minInterval f → s.table.timers id = some timer → timer.t = none →
    0 < timer.e ∨ timer.s + minInterval ≤ max minInterval a.1

section Steps

variable {s t : State K A} {id : K} {minInterval now : ℚ} {a : Action K A}

/-- Nothing has happened under a name, apart from the end of an execution. -/
structure Idle (id : K) (s t : State K A) : Prop where
  live : ∀ l ∈ t.table.live, l.id = id → l ∈ s.table.live
  entry : ∀ timer, t.table.timers id = some timer → timer.t = none →
    ∃ before, s.table.timers id = some before ∧ before.t = none ∧ before.s = timer.s
  absent : t.table.timers id = none → s.table.timers id = none
  starts : t.starts id = s.starts id

/-- A step under one name, when it is used by `throttle` only. -/
inductive Effect (id : K) (minInterval now : ℚ) (s t : State K A) : Action K A → Prop where
  | idle {a : Action K A} (h : Idle id s t) : Effect id minInterval now s t a
  | scheduled {f : A} (hno : s.table.hasTimer id = false)
      (htable : t.table =
        s.table.setTimer id f now (s.table.throttleDelay id now minInterval) false)
      (hstarts : t.starts id = s.starts id) :
      Effect id minInterval now s t (.throttle id minInterval f)
  | started {l : Live K A} (hl : l ∈ s.table.live) (hid : l.id = id) (hdue : l.due ≤ now)
      (htable : t.table = s.table.begin now l) (hstarts : t.starts id = s.starts id ++ [now]) :
      Effect id minInterval now s t (.fire l)

theorem Idle.of_table (hlive : ∀ l ∈ t.table.live, l.id = id → l ∈ s.table.live)
    (hentry : t.table.timers id = s.table.timers id) (hstarts : t.started = s.started) :
    Idle id s t where
  live := hlive
  entry timer h ht := ⟨timer, hentry ▸ h, ht, rfl⟩
  absent h := hentry ▸ h
  starts := by simp only [State.starts, hstarts]

theorem Idle.of_setTimer {k : K} {action : A} {intDelay : ℚ} {blnPeriodic : Bool}
    (hs : s.table.Linked) (hk : k ≠ id)
    (htable : t.table = s.table.setTimer k action now intDelay blnPeriodic)
    (hstarts : t.started = s.started) : Idle id s t := by
  refine .of_table (fun l hl hid => ?_) (by simp [htable, Ne.symm hk]) hstarts
  rw [htable, hs.mem_setTimer] at hl
  obtain ⟨hl, -⟩ | rfl := hl
  · exact hl
  · exact absurd hid hk

/-- The end of an execution, under this name or under another. -/
theorem Idle.of_finish {l : Live K A} (htable : t.table = s.table.finish now l)
    (hstarts : t.started = s.started) : Idle id s t := by
  cases hevery : l.every with
  | some _ =>
    have heq : t.table = s.table := by simpa only [Table.finish, hevery] using htable
    exact .of_table (fun m hm _ => heq ▸ hm) (by rw [heq]) hstarts
  | none =>
    have heq : t.table = s.table.modifyTimer l.id ({ · with e := now }) := by
      simpa only [Table.finish, hevery] using htable
    by_cases hid : id = l.id
    · subst hid
      refine ⟨fun m hm _ => by simpa [heq] using hm, fun timer h ht => ?_, fun h => ?_, ?_⟩
      · simp only [heq, Table.timers_modifyTimer, if_true, Option.map_eq_some_iff] at h
        obtain ⟨before, hbefore, rfl⟩ := h
        exact ⟨before, hbefore, ht, rfl⟩
      · simpa [heq] using h
      · simp only [State.starts, hstarts]
    · exact .of_table (fun m hm _ => by simpa [heq] using hm) (by simp [heq, hid]) hstarts

variable [DecidableEq A]

theorem step_clock {a : ℚ × Action K A} (h : step s a = some t) :
    s.clock ≤ a.1 ∧ ∃ u, s.act a.1 a.2 = some u ∧ t = { u with clock := a.1 } := by
  unfold step at h
  split_ifs at h with hclock
  obtain ⟨u, hu, rfl⟩ := Option.map_eq_some_iff.mp h
  exact ⟨hclock, u, hu, rfl⟩

theorem act_linked (hs : s.table.Linked) (h : s.act now a = some t) : t.table.Linked := by
  cases a with
  | throttle id minInterval f =>
    obtain rfl := Option.some_inj.mp h
    exact hs.throttle id f now minInterval
  | setTimer id action intDelay blnPeriodic =>
    obtain rfl := Option.some_inj.mp h
    exact hs.setTimer id action now intDelay blnPeriodic
  | clearTimer id =>
    obtain rfl := Option.some_inj.mp h
    exact hs.clearTimer id
  | fire l =>
    simp only [State.act, Option.ite_none_right_eq_some, Option.some_inj] at h
    obtain ⟨⟨-, hl, -⟩, rfl⟩ := h
    exact hs.begin hl now
  | «return» =>
    obtain ⟨l, -, rfl⟩ := Option.map_eq_some_iff.mp h
    exact hs.finish now l
  | throw =>
    obtain ⟨l, -, rfl⟩ := Option.map_eq_some_iff.mp h
    exact hs

theorem run_linked {hist : List (State K A × (ℚ × Action K A))} (run : Run step (init now) hist t) :
    t.table.Linked := by
  refine run.invariant (I := fun t => t.table.Linked) (fun t a u ht h => ?_) Table.Linked.empty
  obtain ⟨-, u, hu, rfl⟩ := step_clock h
  exact show u.table.Linked from act_linked ht hu

theorem act_effect (hs : s.table.Linked) (hthrottles : a.Throttles id minInterval)
    (h : s.act now a = some t) : Effect id minInterval now s t a := by
  cases a with
  | throttle k m f =>
    obtain rfl := Option.some_inj.mp h
    simp only [Action.Throttles] at hthrottles
    by_cases hhas : s.table.hasTimer k = true
    · have htable : s.table.throttle k f now m = s.table := by simp [Table.throttle, hhas]
      exact .idle (.of_table (fun l hl _ => htable ▸ hl) (by rw [htable]) rfl)
    · have htable : s.table.throttle k f now m =
          s.table.setTimer k f now (s.table.throttleDelay k now m) false := by
        simp [Table.throttle, hhas]
      by_cases hk : k = id
      · subst hk
        obtain rfl := hthrottles rfl
        exact .scheduled (by simpa using hhas) htable rfl
      · exact .idle (.of_setTimer hs hk htable rfl)
  | setTimer k action intDelay blnPeriodic =>
    obtain rfl := Option.some_inj.mp h
    exact .idle (.of_setTimer hs hthrottles rfl rfl)
  | clearTimer k =>
    obtain rfl := Option.some_inj.mp h
    exact .idle (.of_table (fun l hl _ => (hs.mem_clearTimer.mp hl).1) (by
      simp [Ne.symm hthrottles]) rfl)
  | fire l =>
    simp only [State.act, Option.ite_none_right_eq_some, Option.some_inj] at h
    obtain ⟨⟨-, hl, hdue⟩, rfl⟩ := h
    by_cases hid : l.id = id
    · exact .started hl hid hdue rfl (by simp [State.starts, hid])
    · obtain ⟨hentry, hlive⟩ : (s.table.begin now l).timers id = s.table.timers id ∧ _ :=
        hs.begin_frame hl (Ne.symm hid)
      exact .idle ⟨hlive, fun timer h ht => ⟨timer, hentry ▸ h, ht, rfl⟩, fun h => hentry ▸ h,
        by simp [State.starts, hid]⟩
  | «return» =>
    obtain ⟨l, -, rfl⟩ := Option.map_eq_some_iff.mp h
    exact .idle (.of_finish rfl rfl)
  | throw =>
    obtain ⟨l, -, rfl⟩ := Option.map_eq_some_iff.mp h
    exact .idle (.of_table (fun m hm _ => hm) rfl rfl)

end Steps

section Entries

variable {s t : State K A} {id : K} {minInterval now : ℚ} {l : Live K A} {f : A} {intDelay : ℚ}

/-- The entry that `throttle` reads has the time of the last start. -/
structure Tracked (id : K) (s : State K A) : Prop where
  linked : s.table.Linked
  once : ∀ l ∈ s.table.live, l.id = id → l.every = none
  last : ∀ timer, s.table.timers id = some timer → timer.t = none →
    (s.starts id).getLast? = some timer.s
  absent : s.table.timers id = none → s.starts id = []

theorem Tracked.init : Tracked id (Throttle.init now : State K A) where
  linked := Table.Linked.empty
  once := by simp [Throttle.init, Table.empty]
  last := by simp [Throttle.init, Table.empty]
  absent := by simp [Throttle.init, State.starts]

theorem Tracked.idle (hs : Tracked id s) (ht : t.table.Linked) (h : Idle id s t) :
    Tracked id t where
  linked := ht
  once l hl hid := hs.once l (h.live l hl hid) hid
  last timer htimer hnone := by
    obtain ⟨before, hbefore, hnone', hsame⟩ := h.entry timer htimer hnone
    rw [h.starts, ← hsame]
    exact hs.last before hbefore hnone'
  absent hnone := h.starts.trans (hs.absent (h.absent hnone))

theorem Tracked.new_timer (hs : Tracked id s)
    (htable : t.table = s.table.setTimer id f now intDelay false) (hl : l ∈ t.table.live)
    (hid : l.id = id) : l.due = now + intDelay ∧ l.every = none := by
  rw [htable, hs.linked.mem_setTimer] at hl
  obtain ⟨-, hne⟩ | rfl := hl
  · exact absurd hid hne
  · exact ⟨rfl, by simp⟩

theorem Tracked.scheduled (hs : Tracked id s) (ht : t.table.Linked)
    (htable : t.table = s.table.setTimer id f now intDelay false) : Tracked id t where
  linked := ht
  once l hl hid := (hs.new_timer htable hl hid).2
  last timer htimer hnone := by
    simp only [htable, Table.timers_setTimer, if_true, Option.some_inj] at htimer
    simp [← htimer] at hnone
  absent hnone := by simp [htable] at hnone

theorem Tracked.started (hs : Tracked id s) (ht : t.table.Linked) (hl : l ∈ s.table.live)
    (hid : l.id = id) (htable : t.table = s.table.begin now l)
    (hstarts : t.starts id = s.starts id ++ [now]) :
    Tracked id t ∧ ∀ m ∈ t.table.live, m.id ≠ id := by
  subst hid
  have hevery : l.every = none := hs.once l hl rfl
  have hgone : ∀ m ∈ t.table.live, m.id ≠ l.id := fun m hm =>
    ((hs.linked.mem_begin hl hevery).mp (htable ▸ hm)).2
  refine ⟨⟨ht, fun m hm hid => absurd hid (hgone m hm), fun timer htimer _ => ?_,
    fun hnone => ?_⟩, hgone⟩
  · rw [htable, hs.linked.begin_eq hl hevery] at htimer
    simp only [Table.timers_modifyTimer, Table.timers_clearTimer, if_true, Option.map_map,
      Option.map_eq_some_iff] at htimer
    obtain ⟨before, -, rfl⟩ := htimer
    simp [hstarts]
  · have hhandle := hs.linked.handle l hl
    rw [htable, hs.linked.begin_eq hl hevery] at hnone
    simp only [Table.timers_modifyTimer, Table.timers_clearTimer, if_true, Option.map_map,
      Option.map_eq_none_iff] at hnone
    simp [Table.handle, hnone] at hhandle

theorem Tracked.effect {a : Action K A} (hs : Tracked id s) (ht : t.table.Linked)
    (h : Effect id minInterval now s t a) : Tracked id t := by
  cases h with
  | idle h => exact hs.idle ht h
  | scheduled _ htable _ => exact hs.scheduled ht htable
  | started hl hid _ htable hstarts => exact (hs.started ht hl hid htable hstarts).1

theorem Tracked.clock (hs : Tracked id s) (now : ℚ) : Tracked id { s with clock := now } :=
  ⟨hs.linked, hs.once, hs.last, hs.absent⟩

end Entries

section Spacing

variable {s t : State K A} {id : K} {minInterval now : ℚ} {a : Action K A}

/-- Under the name every timer is due late enough after the last start. -/
structure Paced (id : K) (minInterval : ℚ) (s : State K A) : Prop extends Tracked id s where
  spaced : Spaced minInterval (s.starts id)
  due : ∀ l ∈ s.table.live, l.id = id → ∀ x ∈ (s.starts id).getLast?, x + minInterval ≤ l.due

theorem Paced.init : Paced id minInterval (Throttle.init now : State K A) where
  toTracked := .init
  spaced := by simp [Throttle.init, State.starts, Spaced]
  due := by simp [Throttle.init, Table.empty]

omit [DecidableEq K] in
theorem due_throttle {table : Table K A} {timer : Timer} (htimer : table.timers id = some timer) :
    now + table.throttleDelay id now minInterval =
      max (minInterval + if timer.e > 0 then timer.s else 0) now := by
  simp only [Table.throttleDelay, htimer]
  rw [← max_add_add_left]
  congr 1 <;> ring

theorem Paced.due_careful {f : A} {x : ℚ} (hs : Paced id minInterval s)
    (hno : s.table.hasTimer id = false) (hx : x ∈ (s.starts id).getLast?)
    (hcareful : Careful id minInterval s (now, .throttle id minInterval f)) :
    x + minInterval ≤ now + s.table.throttleDelay id now minInterval := by
  cases htimer : s.table.timers id with
  | none => simp [hs.absent htimer] at hx
  | some timer =>
    have hnone : timer.t = none := by
      simpa [Table.hasTimer, Table.handle, htimer] using hno
    obtain rfl : timer.s = x := Option.some_inj.mp ((hs.last timer htimer hnone).symm.trans hx)
    rw [due_throttle htimer]
    obtain hpos | hlate := hcareful f timer rfl htimer hnone
    · simp [hpos, add_comm]
    · split_ifs
      · simp [add_comm]
      · simpa using hlate

theorem Paced.effect (hs : Paced id minInterval s) (ht : t.table.Linked)
    (hcareful : Careful id minInterval s (now, a)) (h : Effect id minInterval now s t a) :
    Paced id minInterval t := by
  refine ⟨hs.toTracked.effect ht h, ?_, ?_⟩
  · cases h with
    | idle h => exact h.starts ▸ hs.spaced
    | scheduled _ _ hstarts => exact hstarts ▸ hs.spaced
    | @started l hl hid hdue _ hstarts =>
      rw [hstarts, Spaced, List.isChain_append]
      refine ⟨hs.spaced, .singleton _, fun x hx y hy => ?_⟩
      obtain rfl : now = y := by simpa using hy
      exact (hs.due l hl hid x hx).trans hdue
  · intro l hl hid x hx
    cases h with
    | idle h => exact hs.due l (h.live l hl hid) hid x (h.starts ▸ hx)
    | scheduled hno htable hstarts =>
      rw [(hs.new_timer htable hl hid).1]
      exact hs.due_careful hno (hstarts ▸ hx) hcareful
    | started hl' hid' _ htable hstarts =>
      exact absurd hid ((hs.started ht hl' hid' htable hstarts).2 l hl)

theorem Paced.clock (hs : Paced id minInterval s) (now : ℚ) :
    Paced id minInterval { s with clock := now } :=
  ⟨hs.toTracked.clock now, hs.spaced, hs.due⟩

end Spacing

section Runs

variable [DecidableEq A] {s t u : State K A} {id : K} {minInterval now : ℚ}
  {a : ℚ × Action K A} {hist : List (State K A × (ℚ × Action K A))}

theorem step_tracked (hs : Tracked id s) (hthrottles : a.2.Throttles id minInterval)
    (h : step s a = some t) : Tracked id t := by
  obtain ⟨-, u, hu, rfl⟩ := step_clock h
  exact (hs.effect (act_linked hs.linked hu) (act_effect hs.linked hthrottles hu)).clock a.1

theorem step_paced (hs : Paced id minInterval s) (hthrottles : a.2.Throttles id minInterval)
    (hcareful : Careful id minInterval s a) (h : step s a = some t) :
    Paced id minInterval t := by
  obtain ⟨-, u, hu, rfl⟩ := step_clock h
  exact (hs.effect (act_linked hs.linked hu) hcareful
    (act_effect hs.linked hthrottles hu)).clock a.1

theorem run_tracked (run : Run step (init now) hist t)
    (hthrottles : ∀ e ∈ hist, e.2.2.Throttles id minInterval) : Tracked id t :=
  run.invariant_of (fun _ _ _ ht ha h => step_tracked ht ha h) hthrottles .init

theorem run_paced (run : Run step (init now) hist t)
    (hthrottles : ∀ e ∈ hist, e.2.2.Throttles id minInterval)
    (hcareful : ∀ e ∈ hist, Careful id minInterval e.1 e.2) : Paced id minInterval t :=
  run.invariant_of
    (C := fun s a => a.2.Throttles id minInterval ∧ Careful id minInterval s a)
    (fun _ _ _ ht ha h => step_paced ht ha.1 ha.2 h)
    (fun e he => ⟨hthrottles e he, hcareful e he⟩) .init

theorem step_pending {f : A} (hs : s.table.Linked)
    (h : step s (now, .throttle id minInterval f) = some t) : ∃ l ∈ t.table.live, l.id = id := by
  obtain ⟨-, u, hu, rfl⟩ := step_clock h
  obtain rfl := Option.some_inj.mp hu
  exact hs.exists_throttle id f now minInterval

theorem exists_idle (s : State K A) (id : K) (minInterval : ℚ) :
    ∃ hist t, Run step s hist t ∧ t.running = none ∧ t.table.live = s.table.live ∧
      t.clock = s.clock ∧ t.started = s.started ∧
      ∀ e ∈ hist, e.2.2.Throttles id minInterval := by
  cases hrunning : s.running with
  | none => exact ⟨[], s, .start, hrunning, rfl, rfl, rfl, by simp⟩
  | some l =>
    refine ⟨_, { s with table := s.table.finish s.clock l, running := none },
      .one (a := (s.clock, .return)) ?_, rfl, ?_, rfl, rfl, ?_⟩
    · simp [step, State.act, hrunning]
    · simp
    · simp [Action.Throttles]

theorem exists_fire {l : Live K A} (hidle : s.running = none) (hl : l ∈ s.table.live)
    (hclock : s.clock ≤ now) (hdue : l.due ≤ now) :
    ∃ t, step s (now, .fire l) = some t ∧ t.started = s.started ++ [(l.id, now)] :=
  ⟨{ s with table := s.table.begin now l, running := some l, clock := now,
            started := s.started ++ [(l.id, now)] },
    by simp [step, State.act, hidle, hl, hclock, hdue], rfl⟩

/-- After a careless call the next execution can start too soon. -/
theorem exists_not_spaced (hs : Tracked id s) (hcareless : ¬Careful id minInterval s a)
    (h : step s a = some t) (hthrottles : a.2.Throttles id minInterval) :
    ∃ hist u, Run step t hist u ∧ (∀ e ∈ hist, e.2.2.Throttles id minInterval) ∧
      ¬Spaced minInterval (u.starts id) := by
  obtain ⟨now, b⟩ := a
  simp only [Careful, not_forall, not_or, not_le, not_lt] at hcareless
  obtain ⟨f, timer, rfl, htimer, hnone, hend, hsoon⟩ := hcareless
  have hno : s.table.hasTimer id = false := by simp [Table.hasTimer, Table.handle, htimer, hnone]
  obtain ⟨-, u, hu, rfl⟩ := step_clock h
  obtain rfl := Option.some_inj.mp hu
  obtain ⟨l, hl, hid, hdue⟩ : ∃ l ∈ (s.table.throttle id f now minInterval).live,
      l.id = id ∧ l.due = max minInterval now := by
    refine ⟨⟨s.table.count, id, f, now + s.table.throttleDelay id now minInterval, none⟩,
      ?_, rfl, ?_⟩
    · simp [Table.throttle, hno, hs.linked.mem_setTimer]
    · simpa [not_lt.mpr hend] using due_throttle htimer
  obtain ⟨hist, v, run, hidle, hlive, hclock, hstarted, hends⟩ :=
    exists_idle { s with table := s.table.throttle id f now minInterval, clock := now }
      id minInterval
  obtain ⟨w, hfire, hfired⟩ := exists_fire hidle (hlive ▸ hl)
    (show v.clock ≤ l.due by rw [hclock, hdue]; exact le_max_right _ _) le_rfl
  refine ⟨_, w, run.next hfire, ?_, fun hspaced => ?_⟩
  · intro e he
    obtain he | he := List.mem_append.mp he
    · exact hends e he
    · obtain rfl := List.mem_singleton.mp he
      trivial
  · have hstarts : w.starts id = s.starts id ++ [l.due] := by
      simp [State.starts, hfired, hstarted, hid]
    rw [hstarts, Spaced, List.isChain_append] at hspaced
    have hge := hspaced.2.2 timer.s (hs.last timer htimer hnone) l.due (by simp)
    exact absurd (hdue ▸ hge) (not_le.mpr hsoon)

/-- Whatever code of the page calls, an execution is pending when `throttle` returns. When no
call is careless, executions start at least the interval apart. After any careless call the
page can go on so that two of them do not. -/
theorem throttle_keeps_interval (run : Run step (init now) hist t)
    (hthrottles : ∀ e ∈ hist, e.2.2.Throttles id minInterval) :
    (∀ e ∈ hist, ∀ f u, e.2.2 = .throttle id minInterval f → step e.1 e.2 = some u →
      ∃ l ∈ u.table.live, l.id = id) ∧
    ((∀ e ∈ hist, Careful id minInterval e.1 e.2) → Spaced minInterval (t.starts id)) ∧
    (∀ a u, a.2.Throttles id minInterval → step t a = some u → ¬Careful id minInterval t a →
      ∃ hist' v, Run step u hist' v ∧ (∀ e ∈ hist', e.2.2.Throttles id minInterval) ∧
        ¬Spaced minInterval (v.starts id)) := by
  refine ⟨fun e he f u hf h => ?_, fun hcareful => (run_paced run hthrottles hcareful).spaced,
    fun a u ha h hcareless => exists_not_spaced (run_tracked run hthrottles) hcareless h ha⟩
  obtain ⟨head, -, -, hrun, -⟩ := run.at_mem he
  obtain ⟨s, at_, b⟩ := e
  obtain rfl : b = _ := hf
  exact step_pending (run_linked hrun) h

theorem run_of_starts (minInterval : ℚ) {labels : List (ℚ × Action K A)} {times : List ℚ}
    (h : (exec step (init now : State K A) labels).map (·.starts id) = some times)
    (hthrottles : ∀ a ∈ labels, a.2.Throttles id minInterval) :
    ∃ (hist : _) (t : State K A), Run step (init now) hist t ∧
      (∀ e ∈ hist, e.2.2.Throttles id minInterval) ∧ t.starts id = times := by
  obtain ⟨t, ht, htimes⟩ := Option.map_eq_some_iff.mp h
  obtain ⟨hist, run, hlabels⟩ := run_of_exec ht
  refine ⟨hist, t, run, fun e he => hthrottles e.2 ?_, htimes⟩
  rw [← hlabels]
  exact List.mem_map_of_mem he

end Runs

/-- The update of a form is throttled again when it has returned. -/
def updates : List (ℚ × Action String Unit) :=
  [(1000, .throttle "goradd.update" 500 ()),
   (1000, .fire ⟨0, "goradd.update", (), 1000, none⟩),
   (1001, .return),
   (1002, .throttle "goradd.update" 500 ()),
   (1500, .fire ⟨1, "goradd.update", (), 1500, none⟩)]

/-- The update of a form is throttled again before it returns for the first time. -/
def nestedUpdates : List (ℚ × Action String Unit) :=
  [(1000, .throttle "goradd.update" 500 ()),
   (1000, .fire ⟨0, "goradd.update", (), 1000, none⟩),
   (1001, .throttle "goradd.update" 500 ()),
   (1002, .return),
   (1002, .fire ⟨1, "goradd.update", (), 1001, none⟩)]

theorem updates_starts : (exec step (init 0) updates).map (·.starts "goradd.update") =
    some [1000, 1500] := by
  decide +kernel

theorem nestedUpdates_starts :
    (exec step (init 0) nestedUpdates).map (·.starts "goradd.update") = some [1000, 1002] := by
  decide +kernel

theorem throttle_keeps_interval_updates :
    ∃ (hist : _) (t : State String Unit), Run step (init 0) hist t ∧
      t.starts "goradd.update" = [1000, 1500] ∧
      ((∀ e ∈ hist, Careful "goradd.update" 500 e.1 e.2) →
        Spaced 500 (t.starts "goradd.update")) := by
  obtain ⟨hist, t, run, hthrottles, hstarts⟩ :=
    run_of_starts 500 updates_starts (by simp [updates, Action.Throttles])
  exact ⟨hist, t, run, hstarts, (throttle_keeps_interval run hthrottles).2.1⟩

theorem throttle_breaks_interval :
    ∃ (hist : _) (t : State String Unit), Run step (init 0) hist t ∧
      (∀ e ∈ hist, e.2.2.Throttles "goradd.update" 500) ∧
      ¬Spaced 500 (t.starts "goradd.update") := by
  obtain ⟨hist, t, run, hthrottles, hstarts⟩ :=
    run_of_starts 500 nestedUpdates_starts
      (by simp [nestedUpdates, Action.Throttles])
  refine ⟨hist, t, run, hthrottles, fun hspaced => ?_⟩
  rw [hstarts, Spaced, List.isChain_pair] at hspaced
  norm_num at hspaced

end GoraddServe.Throttle
