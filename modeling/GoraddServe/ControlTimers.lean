import GoraddServe.Throttle

/-!
# The timers of controls

`startControlTimer` sets a timer under the ID of a control and `_ct`, whose action triggers
`timerexpiredevent` on the control; `stopControlTimer` clears it. The page sets and clears other
timers beside them, and calls `throttle`.
-/
namespace GoraddServe.ControlTimers
open LabelledRuns NamedTimers Throttle

section Timers

variable {K A : Type*} [DecidableEq K] [DecidableEq A] {s t : State K A}
  {hist : List (State K A × (ℚ × Action K A))} {id : K} {action : A} {now intDelay : ℚ}
  {blnPeriodic : Bool} {a : ℚ × Action K A} {l m : Live K A}

/-- The step sets a timer of the name: a call of `setTimer`, or of `throttle` when there is none. -/
def Sets (id : K) (action : A) (intDelay : ℚ) (blnPeriodic : Bool)
    (e : State K A × (ℚ × Action K A)) : Prop :=
  e.2.2 = .setTimer id action intDelay blnPeriodic ∨
    e.1.table.hasTimer id = false ∧ blnPeriodic = false ∧ ∃ minInterval,
      e.2.2 = .throttle id minInterval action ∧
        intDelay = e.1.table.throttleDelay id e.2.1 minInterval

/-- The step sets no timer of the name and clears none. One that does not repeat does not fire. -/
def Leaves (id : K) (blnPeriodic : Bool) (e : State K A × (ℚ × Action K A)) : Prop :=
  (∀ action intDelay blnPeriodic, ¬Sets id action intDelay blnPeriodic e) ∧
    e.2.2 ≠ .clearTimer id ∧ (blnPeriodic = false → ∀ l, e.2.2 = .fire l → l.id ≠ id)

/-- What `setInterval` repeats. -/
def every (intDelay : ℚ) (blnPeriodic : Bool) : Option ℚ :=
  if blnPeriodic then some intDelay else none

omit [DecidableEq K] [DecidableEq A] in
theorem isSome_every (h : l.every = every intDelay blnPeriodic) : l.every.isSome = blnPeriodic := by
  rw [h, every]
  cases blnPeriodic with
  | true => rfl
  | false => rfl

/-- A timer after a step is the one that the step has set, or it was there before; then its time
has not changed, or it has been called and will be called again after its delay. -/
inductive Came (s : State K A) (a : ℚ × Action K A) (l : Live K A) : Prop where
  | set {intDelay : ℚ} {blnPeriodic : Bool} (hsets : Sets l.id l.action intDelay blnPeriodic (s, a))
      (hevery : l.every = every intDelay blnPeriodic) (hdue : l.due = a.1 + intDelay)
  | stayed {m : Live K A} (hm : m ∈ s.table.live) (hid : m.id = l.id)
      (haction : m.action = l.action) (hevery : m.every = l.every)
      (hdue : m.due = l.due ∨ ∃ intDelay, l.every = some intDelay ∧ l.due = a.1 + intDelay)
      (hleaves : Leaves l.id l.every.isSome (s, a))

def name : Action K A → Option K
  | .throttle id _ _ => some id
  | .setTimer id _ _ _ => some id
  | .clearTimer id => some id
  | .fire l => some l.id
  | .return => none
  | .throw => none

omit [DecidableEq K] [DecidableEq A] in
theorem leaves_of_name (hname : name a.2 ≠ some id) : Leaves id blnPeriodic (s, a) := by
  refine ⟨?_, ?_, ?_⟩
  · rintro action intDelay blnPeriodic (ha | ⟨-, -, minInterval, ha, -⟩)
    · exact hname (by rw [ha, name])
    · exact hname (by rw [ha, name])
  · intro ha
    exact hname (by rw [ha, name])
  · intro _ l ha hid
    exact hname (by rw [ha, name, hid])

omit [DecidableEq A] in
theorem came_setTimer {b : Action K A} (hs : s.table.Linked)
    (hsets : Sets id action intDelay blnPeriodic (s, (now, b))) (hname : name b = some id)
    (hl : l ∈ (s.table.setTimer id action now intDelay blnPeriodic).live) :
    Came s (now, b) l := by
  obtain ⟨hl, hid⟩ | rfl := hs.mem_setTimer.mp hl
  · refine .stayed hl rfl rfl rfl (.inl rfl) (leaves_of_name ?_)
    exact fun h => hid (Option.some_inj.mp (h.symm.trans hname))
  · exact .set hsets rfl rfl

omit [DecidableEq A] in
theorem came_fire (hs : s.table.Linked) (hm : m ∈ s.table.live)
    (hl : l ∈ (s.table.begin now m).live) : Came s (now, .fire m) l := by
  cases hevery : m.every with
  | none =>
    obtain ⟨hl, hid⟩ := (hs.mem_begin hm hevery).mp hl
    refine .stayed hl rfl rfl rfl (.inl rfl) (leaves_of_name ?_)
    exact fun h => hid (Option.some_inj.mp h).symm
  | some intDelay =>
    simp only [Table.begin, hevery, List.mem_map] at hl
    obtain ⟨l, hl, rfl⟩ := hl
    split_ifs with hnumber
    · obtain rfl := hs.eq_of_number hl hm hnumber
      refine .stayed hl rfl rfl rfl (.inr ⟨intDelay, hevery, rfl⟩) ?_
      exact ⟨by simp [Sets], by simp, by simp [hevery]⟩
    · refine .stayed hl rfl rfl rfl (.inl rfl) (leaves_of_name fun h => ?_)
      rw [hs.eq_of_id hm hl (Option.some_inj.mp h)] at hnumber
      exact hnumber rfl

theorem came_step (hs : s.table.Linked) (h : step s a = some t) (hl : l ∈ t.table.live) :
    Came s a l := by
  obtain ⟨-, u, hu, rfl⟩ := step_clock h
  obtain ⟨now, a⟩ := a
  cases a with
  | throttle id minInterval f =>
    obtain rfl := Option.some_inj.mp hu
    by_cases hhas : s.table.hasTimer id = true
    · have hl : l ∈ s.table.live := by simpa [Table.throttle, hhas] using hl
      refine .stayed hl rfl rfl rfl (.inl rfl) ⟨?_, by simp, by simp⟩
      rintro action intDelay blnPeriodic (ha | ⟨hno, -, minInterval, ha, -⟩)
      · cases ha
      · cases ha
        simp [hhas] at hno
    · have hno : s.table.hasTimer id = false := by simpa using hhas
      refine came_setTimer hs (.inr ⟨hno, rfl, minInterval, rfl, rfl⟩) rfl ?_
      simpa [Table.throttle, hhas] using hl
  | setTimer id action intDelay blnPeriodic =>
    obtain rfl := Option.some_inj.mp hu
    exact came_setTimer hs (.inl rfl) rfl hl
  | clearTimer id =>
    obtain rfl := Option.some_inj.mp hu
    obtain ⟨hl, hid⟩ := hs.mem_clearTimer.mp hl
    refine .stayed hl rfl rfl rfl (.inl rfl) (leaves_of_name ?_)
    exact fun h => hid (Option.some_inj.mp h).symm
  | fire m =>
    simp only [State.act, Option.ite_none_right_eq_some, Option.some_inj] at hu
    obtain ⟨⟨-, hm, -⟩, rfl⟩ := hu
    exact came_fire hs hm hl
  | «return» =>
    obtain ⟨m, -, rfl⟩ := Option.map_eq_some_iff.mp hu
    refine .stayed ?_ rfl rfl rfl (.inl rfl) (leaves_of_name (by simp [name]))
    simpa using hl
  | throw =>
    obtain ⟨m, -, rfl⟩ := Option.map_eq_some_iff.mp hu
    exact .stayed hl rfl rfl rfl (.inl rfl) (leaves_of_name (by simp [name]))

theorem sets_step (hs : s.table.Linked) (h : step s a = some t)
    (hsets : Sets id action intDelay blnPeriodic (s, a)) :
    ∃ l ∈ t.table.live, l.id = id ∧ l.every = every intDelay blnPeriodic := by
  obtain ⟨-, u, hu, rfl⟩ := step_clock h
  obtain ⟨now, b⟩ := a
  have hset : ∀ intDelay blnPeriodic, ∃ l ∈ (s.table.setTimer id action now intDelay
      blnPeriodic).live, l.id = id ∧ l.every = every intDelay blnPeriodic :=
    fun intDelay blnPeriodic => ⟨_, hs.mem_setTimer.mpr (.inr rfl), rfl, rfl⟩
  obtain rfl | ⟨hno, rfl, minInterval, rfl, rfl⟩ := hsets
  · obtain rfl := Option.some_inj.mp hu
    exact hset intDelay blnPeriodic
  · obtain rfl := Option.some_inj.mp hu
    simpa [Table.throttle, show s.table.hasTimer id = false from hno] using hset _ false

/-- A timer that a step leaves is there after it. -/
theorem leaves_step (hs : s.table.Linked) (h : step s a = some t) (hm : m ∈ s.table.live)
    (hleaves : Leaves m.id m.every.isSome (s, a)) :
    ∃ l ∈ t.table.live, l.id = m.id ∧ l.every = m.every := by
  obtain ⟨-, u, hu, rfl⟩ := step_clock h
  obtain ⟨now, a⟩ := a
  obtain ⟨hsets, hclear, hfire⟩ := hleaves
  cases a with
  | throttle id minInterval f =>
    obtain rfl := Option.some_inj.mp hu
    refine ⟨m, ?_, rfl, rfl⟩
    by_cases hhas : s.table.hasTimer id = true
    · simpa [Table.throttle, hhas] using hm
    · have hno : s.table.hasTimer id = false := by simpa using hhas
      have hid : m.id ≠ id := by
        rintro rfl
        exact hsets f _ false (.inr ⟨hno, rfl, minInterval, rfl, rfl⟩)
      simpa [Table.throttle, hhas] using hs.mem_setTimer.mpr (.inl ⟨hm, hid⟩)
  | setTimer id action intDelay blnPeriodic =>
    obtain rfl := Option.some_inj.mp hu
    have hid : m.id ≠ id := by
      rintro rfl
      exact hsets action intDelay blnPeriodic (.inl rfl)
    exact ⟨m, hs.mem_setTimer.mpr (.inl ⟨hm, hid⟩), rfl, rfl⟩
  | clearTimer id =>
    obtain rfl := Option.some_inj.mp hu
    have hid : m.id ≠ id := by
      rintro rfl
      exact hclear rfl
    exact ⟨m, hs.mem_clearTimer.mpr ⟨hm, hid⟩, rfl, rfl⟩
  | fire l =>
    simp only [State.act, Option.ite_none_right_eq_some, Option.some_inj] at hu
    obtain ⟨⟨-, hl, -⟩, rfl⟩ := hu
    cases hevery : l.every with
    | none =>
      have hid : m.id ≠ l.id := by
        intro hid
        obtain rfl := hs.eq_of_id hm hl hid
        exact hfire (by simp [hevery]) m rfl rfl
      exact ⟨m, (hs.mem_begin hl hevery).mpr ⟨hm, hid⟩, rfl, rfl⟩
    | some intDelay =>
      refine ⟨if m.number = l.number then { m with due := now + intDelay } else m, ?_, ?_, ?_⟩
      · simp only [Table.begin, hevery]
        exact List.mem_map_of_mem hm
      · split_ifs <;> rfl
      · split_ifs <;> rfl
  | «return» =>
    obtain ⟨l, -, rfl⟩ := Option.map_eq_some_iff.mp hu
    exact ⟨m, by simpa using hm, rfl, rfl⟩
  | throw =>
    obtain ⟨l, -, rfl⟩ := Option.map_eq_some_iff.mp hu
    exact ⟨m, hm, rfl, rfl⟩

theorem clock_run (run : Run step (init now) hist t) : ∀ e ∈ hist, e.2.1 ≤ t.clock := by
  induction run with
  | start => simp
  | next run taken ih =>
    obtain ⟨hclock, u, -, rfl⟩ := step_clock taken
    intro e he
    rcases List.mem_append.mp he with he | he
    · exact (ih e he).trans hclock
    · exact (List.mem_singleton.mp he ▸ le_refl _)

/-- In every run a timer was set under its name, and left by the steps since; it is not due before
its delay. -/
theorem set_run (run : Run step (init now) hist t) : ∀ l ∈ t.table.live, ∃ intDelay blnPeriodic,
    l.every = every intDelay blnPeriodic ∧
    Since (fun e => Sets l.id l.action intDelay blnPeriodic e ∧ e.2.1 + intDelay ≤ l.due)
      (Leaves l.id blnPeriodic) hist := by
  induction run with
  | start => simp [init, Table.empty]
  | @next hist t u a run taken ih =>
    intro l hl
    cases came_step (run_linked run) taken hl with
    | set hsets hevery hdue => exact ⟨_, _, hevery, since_append.mpr (.inl ⟨hsets, hdue.ge⟩)⟩
    | @stayed m hm hid haction hevery hdue hleaves =>
      obtain ⟨intDelay, blnPeriodic, heq, hsince⟩ := ih m hm
      have hsame : l.every.isSome = blnPeriodic := isSome_every (hevery ▸ heq)
      refine ⟨intDelay, blnPeriodic, hevery ▸ heq, since_append.mpr (.inr ⟨hsame ▸ hleaves, ?_⟩)⟩
      rw [← hid, ← haction]
      refine hsince.imp (fun e he hset => ⟨hset.1, ?_⟩) fun _ _ h => h
      obtain hdue | ⟨every, hsome, hdue⟩ := hdue
      · exact hdue ▸ hset.2
      · obtain rfl : every = intDelay := by
          rw [← hevery, heq, ControlTimers.every] at hsome
          simp_all
        have hclock := (clock_run run e he).trans (step_clock taken).1
        linarith

theorem live_run (run : Run step (init now) hist t)
    (hsince : Since (Sets id action intDelay blnPeriodic) (Leaves id blnPeriodic) hist) :
    ∃ l ∈ t.table.live, l.id = id ∧ l.every = every intDelay blnPeriodic := by
  induction run with
  | start => exact absurd hsince not_since_nil
  | next run taken ih =>
    rcases since_append.mp hsince with hsets | ⟨hleaves, hsince⟩
    · exact sets_step (run_linked run) taken hsets
    · obtain ⟨m, hm, rfl, hevery⟩ := ih hsince
      exact hevery ▸ leaves_step (run_linked run) taken hm (isSome_every hevery ▸ hleaves)

end Timers

/-- The actions of the page's timers: one triggers `timerexpiredevent` on a control, the others are
numbered. -/
inductive Callback where
  | timerexpiredevent (controlID : String)
  | other (n : ℕ)
  deriving DecidableEq

def strTimerId (controlID : String) : String := controlID ++ "_ct"

def startControlTimer (controlID : String) (delay : ℚ) (periodic : Bool) : Action String Callback :=
  .setTimer (strTimerId controlID) (.timerexpiredevent controlID) delay periodic

def stopControlTimer (controlID : String) : Action String Callback :=
  .clearTimer (strTimerId controlID)

abbrev Step := State String Callback × (ℚ × Action String Callback)

/-- The name belongs to the control: other code sets no timer under it, and sets none that triggers
the event on the control. -/
def Own (controlID : String) : Action String Callback → Prop
  | .setTimer id action _ _ => id = strTimerId controlID ↔ action = .timerexpiredevent controlID
  | .throttle id _ f => id ≠ strTimerId controlID ∧ f ≠ .timerexpiredevent controlID
  | _ => True

instance (controlID : String) : ∀ a, Decidable (Own controlID a)
  | .setTimer _ _ _ _ => inferInstanceAs (Decidable (_ ↔ _))
  | .throttle _ _ _ => inferInstanceAs (Decidable (_ ∧ _))
  | .clearTimer _ => inferInstanceAs (Decidable True)
  | .fire _ => inferInstanceAs (Decidable True)
  | .return => inferInstanceAs (Decidable True)
  | .throw => inferInstanceAs (Decidable True)

/-- The step neither starts nor stops the timer of the control, and does not fire it if it fires
only once. -/
def Stays (controlID : String) (periodic : Bool) (e : Step) : Prop :=
  (∀ delay periodic, e.2.2 ≠ startControlTimer controlID delay periodic) ∧
    e.2.2 ≠ stopControlTimer controlID ∧
    (periodic = false → ∀ l, e.2.2 = .fire l → l.action ≠ .timerexpiredevent controlID)

section Controls

variable {t u : State String Callback} {hist : List Step} {controlID : String} {now now' : ℚ}
  {action : Callback} {delay : ℚ} {periodic : Bool} {e : Step} {l : Live String Callback}

theorem sets_iff (hown : Own controlID e.2.2) :
    Sets (strTimerId controlID) action delay periodic e ↔
      action = .timerexpiredevent controlID ∧
        e.2.2 = startControlTimer controlID delay periodic := by
  constructor
  · rintro (hset | ⟨-, -, minInterval, hset, -⟩)
    · rw [hset] at hown
      obtain rfl := hown.mp rfl
      exact ⟨rfl, hset⟩
    · rw [hset] at hown
      exact absurd rfl hown.1
  · rintro ⟨rfl, hset⟩
    exact .inl hset

theorem id_iff (run : Run step (init now) hist t) (hown : ∀ e ∈ hist, Own controlID e.2.2)
    (hl : l ∈ t.table.live) :
    l.id = strTimerId controlID ↔ l.action = .timerexpiredevent controlID := by
  obtain ⟨intDelay, blnPeriodic, -, before, e, after, hsplit, ⟨hsets, -⟩, -⟩ := set_run run l hl
  have hown := hown e (by simp [hsplit])
  obtain hset | ⟨-, -, minInterval, hset, -⟩ := hsets
  · rw [hset] at hown
    exact hown
  · rw [hset] at hown
    exact iff_of_false hown.1 hown.2

theorem leaves_iff (run : Run step (init now) hist t) (hown : ∀ e ∈ hist, Own controlID e.2.2)
    (he : e ∈ hist) : Leaves (strTimerId controlID) periodic e ↔ Stays controlID periodic e := by
  obtain ⟨head, u, hpre, hrun, hstep⟩ := run.at_mem he
  refine and_congr ?_ (and_congr_right fun _ => forall_congr' fun _ => ?_)
  · constructor
    · intro hno delay periodic hstart
      exact hno _ delay periodic ((sets_iff (hown e he)).mpr ⟨rfl, hstart⟩)
    · intro hno action delay periodic hset
      exact hno delay periodic ((sets_iff (hown e he)).mp hset).2
  · refine forall_congr' fun l => forall_congr' fun hfire => not_congr ?_
    refine id_iff hrun (fun e' he' => hown e' (hpre.subset (List.mem_append_left _ he'))) ?_
    obtain ⟨-, v, hv, -⟩ := step_clock hstep
    rw [hfire] at hv
    simp only [State.act, Option.ite_none_right_eq_some] at hv
    exact hv.1.2.1

/-- In every run a control has a timer if and only if one was started and not stopped since; one
that fires once has not fired since. -/
theorem waits_iff (run : Run step (init now) hist t) (hown : ∀ e ∈ hist, Own controlID e.2.2) :
    t.table.hasTimer (strTimerId controlID) = true ↔ ∃ delay periodic,
      Since (fun e => e.2.2 = startControlTimer controlID delay periodic)
        (Stays controlID periodic) hist := by
  rw [(run_linked run).hasTimer_iff]
  constructor
  · rintro ⟨l, hl, hid⟩
    obtain ⟨delay, periodic, -, hsince⟩ := set_run run l hl
    rw [hid] at hsince
    refine ⟨delay, periodic, hsince.imp (fun e he h => ?_) fun e he => (leaves_iff run hown he).mp⟩
    exact ((sets_iff (hown e he)).mp h.1).2
  · rintro ⟨delay, periodic, hsince⟩
    have hset : Since (Sets (strTimerId controlID) (.timerexpiredevent controlID) delay periodic)
        (Leaves (strTimerId controlID) periodic) hist :=
      hsince.imp (fun e he h => (sets_iff (hown e he)).mpr ⟨rfl, h⟩)
        fun e he => (leaves_iff run hown he).mpr
    obtain ⟨l, hl, hid, -⟩ := live_run run hset
    exact ⟨l, hl, hid⟩

/-- A label blinks, and a form is saved once. -/
def blinkAndSave : List (ℚ × Action String Callback) :=
  [(0, startControlTimer "label" 100 true), (10, startControlTimer "form" 50 false),
   (65, .fire ⟨1, "form_ct", .timerexpiredevent "form", 60, none⟩), (66, .return),
   (100, .fire ⟨0, "label_ct", .timerexpiredevent "label", 100, some 100⟩)]

theorem waits_iff_label : ∃ hist t, Run step (init 0) hist t ∧ ∃ delay periodic,
    Since (fun e => e.2.2 = startControlTimer "label" delay periodic) (Stays "label" periodic)
      hist := by
  have hhas : (exec step (init 0) blinkAndSave).map (·.table.hasTimer (strTimerId "label")) =
      some true := by decide +kernel
  have hown : ∀ a ∈ blinkAndSave, Own "label" a.2 := by decide +kernel
  obtain ⟨t, ht, hhas⟩ := Option.map_eq_some_iff.mp hhas
  obtain ⟨hist, run, hlabels⟩ := run_of_exec ht
  refine ⟨hist, t, run, (waits_iff run fun e he => hown e.2 ?_).mp hhas⟩
  exact hlabels ▸ List.mem_map_of_mem he

/-- In every run a timer triggers the event on a control only after it was started there, at least
its delay ago, and not stopped since; one that fires once has not fired since. -/
theorem expired_since (run : Run step (init now) hist t)
    (hown : ∀ e ∈ hist, Own controlID e.2.2) (h : step t (now', .fire l) = some u)
    (hl : l.action = .timerexpiredevent controlID) : ∃ delay periodic,
      Since (fun e => e.2.2 = startControlTimer controlID delay periodic ∧ e.2.1 + delay ≤ now')
        (Stays controlID periodic) hist := by
  obtain ⟨-, v, hv, -⟩ := step_clock h
  simp only [State.act, Option.ite_none_right_eq_some] at hv
  obtain ⟨⟨-, hlive, hdue⟩, -⟩ := hv
  obtain ⟨delay, periodic, -, hsince⟩ := set_run run l hlive
  rw [(id_iff run hown hlive).mpr hl] at hsince
  refine ⟨delay, periodic, hsince.imp (fun e he h => ?_) fun e he => (leaves_iff run hown he).mp⟩
  exact ⟨((sets_iff (hown e he)).mp h.1).2, h.2.trans hdue⟩

theorem expired_since_form : ∃ hist t, Run step (init 0) hist t ∧ ∃ delay periodic,
    Since (fun e => e.2.2 = startControlTimer "form" delay periodic ∧ e.2.1 + delay ≤ 65)
      (Stays "form" periodic) hist := by
  have hfire : ((exec step (init 0) (blinkAndSave.take 2)).bind
      (step · (65, .fire ⟨1, "form_ct", .timerexpiredevent "form", 60, none⟩))).isSome = true := by
    decide +kernel
  have hown : ∀ a ∈ blinkAndSave.take 2, Own "form" a.2 := by decide +kernel
  obtain ⟨u, hu⟩ := Option.isSome_iff_exists.mp hfire
  obtain ⟨t, ht, hstep⟩ := Option.bind_eq_some_iff.mp hu
  obtain ⟨hist, run, hlabels⟩ := run_of_exec ht
  refine ⟨hist, t, run, expired_since run (fun e he => hown e.2 ?_) hstep rfl⟩
  exact hlabels ▸ List.mem_map_of_mem he

end Controls

end GoraddServe.ControlTimers
