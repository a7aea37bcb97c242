import GoraddServe.LabelledRuns
import GoraddServe.NamedTimers
import Mathlib.Data.List.Nodup

/-!
# The action queue

`queueAction` puts an action into `_actionQueue` and sets the timer `goradd.actions`, which
runs `processActions`. Its loop calls an action without a delay, and sets a timer under the
key of an action with a delay. Actions may be queued by the page and by actions that run;
they return.
-/
namespace GoraddServe.ActionQueue
open LabelledRuns NamedTimers

def actionsTimer : String := "goradd.actions"

/-- A key of an action. The names that start with `goradd.` are reserved. -/
abbrev Key := { k : String // k ≠ actionsTimer }

/-- The `params` of an action, without a name for the log. `f` is a number that counts the calls
of `queueAction`. -/
structure Params where
  f : ℕ
  k : Key
  d : Option ℚ
  deriving DecidableEq

namespace Params

/-- `params.d > 0` -/
def Delayed (params : Params) : Prop := ∃ d, params.d = some d ∧ 0 < d

instance (params : Params) : Decidable params.Delayed :=
  match h : params.d with
  | none => isFalse fun ⟨_, hd, _⟩ => by simp [h] at hd
  | some d => decidable_of_iff (0 < d) (by simp [Delayed, h])

end Params

/-- What a timer calls. -/
inductive Callback where
  | processActions
  | f (params : Params)
  deriving DecidableEq

/-- A callback that has not returned. `called` is the action that it is in; without one it is
`processActions` at the head of its loop. -/
structure Running where
  timer : Live String Callback
  called : Option Params
  deriving DecidableEq

/-- The queue and the timers, and a record of the actions that were queued, taken out of the
queue, and called. -/
structure State where
  table : Table String Callback
  actionQueue : List Params
  running : Option Running
  clock : ℚ
  count : ℕ
  queued : List Params
  taken : List Params
  ran : List Params

def init (now : ℚ) : State := ⟨.empty, [], none, now, 0, [], [], []⟩

namespace State

variable (s : State)

def maxDelay : ℚ :=
  s.actionQueue.foldl (fun delay item => match item.d with
    | some d => if d > delay then d else delay
    | none => delay) 0

def push (params : Params) : State :=
  { s with actionQueue := s.actionQueue ++ [params], count := s.count + 1,
           queued := s.queued ++ [params] }

def queueAction (k : Key) (d : Option ℚ) (last : Bool) : State :=
  let s := s.push ⟨s.count, k, if last then some (s.maxDelay + 1) else d⟩
  if !s.table.hasTimer actionsTimer then
    { s with table := s.table.setTimer actionsTimer .processActions s.clock 10 false }
  else s

/-- The callback of a timer up to the head of the loop, or up to the call of its action. -/
def fire (l : Live String Callback) : State :=
  let s := { s with table := s.table.begin s.clock l }
  match l.action with
  | .processActions => { s with running := some ⟨l, none⟩ }
  | .f params => { s with running := some ⟨l, some params⟩, ran := s.ran ++ [params] }

def finish (l : Live String Callback) : State :=
  { s with table := s.table.finish s.clock l, running := none }

/-- The loop of `processActions` from its head, back to its head or up to the call of an action,
or to the end. -/
def shift (l : Live String Callback) : State :=
  match s.actionQueue with
  | [] => s.finish l
  | params :: actionQueue =>
    let s := { s with actionQueue, taken := s.taken ++ [params] }
    match params.d with
    | some d =>
      if d > 0 then { s with table := s.table.setTimer params.k (.f params) s.clock d false }
      else { s with running := some ⟨l, some params⟩, ran := s.ran ++ [params] }
    | none => { s with running := some ⟨l, some params⟩, ran := s.ran ++ [params] }

def «return» (l : Live String Callback) : State :=
  match l.action with
  | .processActions => { s with running := some ⟨l, none⟩ }
  | .f _ => s.finish l

end State

inductive Action where
  | queueAction (k : Key) (d : Option ℚ) (last : Bool)
  | fire (l : Live String Callback)
  | shift
  | return
  deriving DecidableEq

/-- A step at the time that the clock shows. -/
def State.act (s : State) : Action → Option State
  | .queueAction k d last =>
    match s.running with
    | some ⟨_, none⟩ => none
    | _ => some (s.queueAction k d last)
  | .fire l =>
    if s.running = none ∧ l ∈ s.table.live ∧ l.due ≤ s.clock then some (s.fire l) else none
  | .shift =>
    match s.running with
    | some ⟨l, none⟩ => some (s.shift l)
    | _ => none
  | .return =>
    match s.running with
    | some ⟨l, some _⟩ => some (s.return l)
    | _ => none

def step (s : State) (a : ℚ × Action) : Option State :=
  if s.clock ≤ a.1 then { s with clock := a.1 }.act a.2 else none

section Effects

variable {s t : State} {a : Action} {l : Live String Callback} {params : Params}
  {rest : List Params} {d : ℚ}

theorem shift_nil (hq : s.actionQueue = []) : s.shift l = s.finish l := by
  simp [State.shift, hq]

theorem shift_delayed (hq : s.actionQueue = params :: rest)
    (hd : params.d = some d) (hpos : 0 < d) :
    s.shift l = { s with actionQueue := rest, taken := s.taken ++ [params],
                         table := s.table.setTimer params.k (.f params) s.clock d false } := by
  simp [State.shift, hq, hd, hpos]

theorem shift_immediate (hq : s.actionQueue = params :: rest)
    (hd : ¬params.Delayed) :
    s.shift l = { s with actionQueue := rest, taken := s.taken ++ [params],
                         running := some ⟨l, some params⟩, ran := s.ran ++ [params] } := by
  simp only [Params.Delayed, not_exists, not_and] at hd
  cases h : params.d with
  | none => simp [State.shift, hq, h]
  | some d => simp [State.shift, hq, h, hd d h]

/-- The kinds of steps, with what they need and what they lead to. -/
inductive Effect (s : State) : State → Prop where
  | arm (params : Params) (hfresh : params.f = s.count)
      (hno : s.table.hasTimer actionsTimer = false) :
      Effect s { s.push params with
        table := s.table.setTimer actionsTimer .processActions s.clock 10 false }
  | push (params : Params) (hfresh : params.f = s.count)
      (hhas : s.table.hasTimer actionsTimer = true) :
      Effect s (s.push params)
  | process (l : Live String Callback) (hrun : s.running = none) (hl : l ∈ s.table.live)
      (hl' : l.action = .processActions) :
      Effect s { s with table := s.table.begin s.clock l, running := some ⟨l, none⟩ }
  | delayed (l : Live String Callback) (params : Params) (hrun : s.running = none)
      (hl : l ∈ s.table.live) (hl' : l.action = .f params) :
      Effect s { s with table := s.table.begin s.clock l, running := some ⟨l, some params⟩,
                        ran := s.ran ++ [params] }
  | done (l : Live String Callback) (hrun : s.running = some ⟨l, none⟩)
      (hq : s.actionQueue = []) : Effect s (s.finish l)
  | schedule (l : Live String Callback) (params : Params) (rest : List Params) (d : ℚ)
      (hrun : s.running = some ⟨l, none⟩)
      (hq : s.actionQueue = params :: rest) (hd : params.d = some d) (hpos : 0 < d) :
      Effect s { s with actionQueue := rest, taken := s.taken ++ [params],
                        table := s.table.setTimer params.k (.f params) s.clock d false }
  | call (l : Live String Callback) (params : Params) (rest : List Params)
      (hrun : s.running = some ⟨l, none⟩)
      (hq : s.actionQueue = params :: rest) (hd : ¬params.Delayed) :
      Effect s { s with actionQueue := rest, taken := s.taken ++ [params],
                        running := some ⟨l, some params⟩, ran := s.ran ++ [params] }
  | resume (l : Live String Callback) (params : Params) (hrun : s.running = some ⟨l, some params⟩)
      (hl : l.action = .processActions) : Effect s { s with running := some ⟨l, none⟩ }
  | ended (l : Live String Callback) (params params' : Params)
      (hrun : s.running = some ⟨l, some params⟩)
      (hl : l.action = .f params') : Effect s (s.finish l)

theorem effect_of_act (h : s.act a = some t) : Effect s t := by
  cases a with
  | queueAction k d last =>
    have hqueue : s.queueAction k d last = t := by
      simp only [State.act] at h
      split at h
      · cases h
      · exact Option.some_inj.mp h
    subst hqueue
    by_cases hhas : s.table.hasTimer actionsTimer = true
    · have heq : s.queueAction k d last =
          s.push ⟨s.count, k, if last then some (s.maxDelay + 1) else d⟩ := by
        simp [State.queueAction, State.push, hhas]
      rw [heq]
      exact .push _ rfl hhas
    · simp only [Bool.not_eq_true] at hhas
      have heq : s.queueAction k d last =
          { s.push ⟨s.count, k, if last then some (s.maxDelay + 1) else d⟩ with
            table := s.table.setTimer actionsTimer .processActions s.clock 10 false } := by
        simp [State.queueAction, State.push, hhas]
      rw [heq]
      exact .arm _ rfl hhas
  | fire l =>
    simp only [State.act, Option.ite_none_right_eq_some, Option.some_inj] at h
    obtain ⟨⟨hrun, hl, -⟩, rfl⟩ := h
    cases hl' : l.action with
    | processActions => simpa [State.fire, hl'] using Effect.process l hrun hl hl'
    | f params => simpa [State.fire, hl'] using Effect.delayed l params hrun hl hl'
  | shift =>
    simp only [State.act] at h
    split at h
    · rename_i l hrun
      obtain rfl := Option.some_inj.mp h
      cases hq : s.actionQueue with
      | nil =>
        rw [shift_nil hq]
        exact .done l hrun hq
      | cons params rest =>
        by_cases hd : params.Delayed
        · obtain ⟨d, hd, hpos⟩ := hd
          rw [shift_delayed hq hd hpos]
          exact .schedule l params rest d hrun hq hd hpos
        · rw [shift_immediate hq hd]
          exact .call l params rest hrun hq hd
    · cases h
  | «return» =>
    simp only [State.act] at h
    split at h
    · rename_i l params hrun
      obtain rfl := Option.some_inj.mp h
      cases hl : l.action with
      | processActions => simpa [State.return, hl] using Effect.resume l params hrun hl
      | f params' => simpa [State.return, hl] using Effect.ended l params params' hrun hl
    · cases h

end Effects

end GoraddServe.ActionQueue
