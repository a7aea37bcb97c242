import GoraddServe.AjaxQueue
import Mathlib.Data.List.Perm.Basic

/-!
# Final commands

A response may carry commands that are marked final. While the queue is running they are pushed
onto `_finalCommands`, and the handler of `ajaxQueueComplete` runs what has been pushed. A
response whose files had to be loaded first delivers its commands after its callback has
returned. The handler takes the commands with `pop`, so of two that are pending the later one
runs first.
-/
namespace GoraddServe.FinalCommands
open LabelledRuns AjaxQueue

/-- The queue and `_finalCommands`, whose commands are told apart by a number that counts the
calls of `_enqueueFinalCommand`, with a record of those that `_processFinalCommands` has run.
It is `ended` when a command has thrown. -/
structure Shim where
  queue : State
  finalCommands : List ℕ
  count : ℕ
  ran : List ℕ
  ended : Bool
  deriving DecidableEq

def init : Shim := ⟨AjaxQueue.init, [], 0, [], false⟩

namespace Shim

variable (s : Shim)

def enqueueFinalCommand : Shim :=
  { s with count := s.count + 1, finalCommands := s.finalCommands ++ [s.count] }

/-- A command of a response. One that is not put off has no effect here: what its script may do
are steps of their own. -/
def command (final : Bool) : Option Shim :=
  if s.queue.building = [] ∧ s.queue.handler ≠ some .queueComplete then
    some (if final && s.queue.isRunning then s.enqueueFinalCommand else s)
  else none

/-- One turn of the loop of `_processFinalCommands`, whose command may throw. -/
def processFinalCommand (throws : Bool) : Option Shim :=
  if s.queue.building = [] ∧ s.queue.handler = some .queueComplete ∧ s.ended = false then
    s.finalCommands.getLast?.map fun command =>
      { s with finalCommands := s.finalCommands.dropLast, ran := s.ran ++ [command],
               ended := throws }
  else none

/-- `trigger` returns when the loop is done. -/
def finish : Option Shim :=
  if s.finalCommands = [] ∨ s.ended = true then
    s.queue.finish.map ({ s with queue := ·, ended := false })
  else none

end Shim

inductive Action where
  | queue (a : AjaxQueue.Action)
  | command (final : Bool)
  | processFinalCommand (throws : Bool)
  deriving DecidableEq

def step (s : Shim) : Action → Option Shim
  | .queue .finish => s.finish
  | .queue a => (AjaxQueue.step s.queue a).map ({ s with queue := · })
  | .command final => s.command final
  | .processFinalCommand throws => s.processFinalCommand throws

/-- A response delivers the final command while the queue is running. -/
def Delivers (e : Shim × Action) (command : ℕ) : Prop :=
  e.2 = .command true ∧ e.1.queue.isRunning = true ∧ e.1.count = command

/-- A request is settled, no other one is running and no function waits. -/
def Completes (e : Shim × Action) : Prop :=
  e.2 = .queue .settle ∧ e.1.queue.q = [] ∧ ∃ ajaxID, e.1.queue.handler = some (.callback ajaxID) ∧
    (e.1.queue.delete ajaxID).currentRequests = []

def RunsCommand (e : Shim × Action) (command : ℕ) : Prop :=
  (∃ throws, e.2 = .processFinalCommand throws) ∧ e.1.finalCommands.getLast? = some command

/-- The final commands run after the queue has become complete, in the order in which they were
delivered and each once, and all of them have run when the handler returns. -/
structure RunsInOrder (hist : List (Shim × Action)) (s : Shim) : Prop where
  late : ∀ head e command, head ++ [e] <+: hist → RunsCommand e command →
    ∃ before d after, head = before ++ d :: after ∧ Delivers d command ∧ ∃ f ∈ after, Completes f
  order : s.ran = List.range s.ran.length
  all : ∀ e ∈ hist, e.2 = .queue .finish → e.1.ran.length = e.1.count

/-- The command that runs is the only one pending. -/
def Alone (s : Shim) : Action → Prop
  | .processFinalCommand _ => s.finalCommands.length = 1
  | _ => True

instance (s : Shim) (a : Action) : Decidable (Alone s a) :=
  match a with
  | .processFinalCommand _ => inferInstanceAs (Decidable (_ = _))
  | .queue _ | .command _ => .isTrue trivial

section Steps

variable {s t : Shim} {a : Action}

/-- The ways in which a step can go. -/
inductive Effect (s : Shim) : Action → Shim → Prop where
  | queue {a : AjaxQueue.Action} {queue : State} (ha : a ≠ .finish)
      (hqueue : AjaxQueue.step s.queue a = some queue) : Effect s (.queue a) { s with queue }
  | now {final : Bool} : Effect s (.command final) s
  | putOff (hhandler : s.queue.handler ≠ some .queueComplete)
      (hrun : s.queue.isRunning = true) : Effect s (.command true) s.enqueueFinalCommand
  | run {throws : Bool} {finalCommands : List ℕ} {command : ℕ}
      (hhandler : s.queue.handler = some .queueComplete)
      (hcommands : s.finalCommands = finalCommands ++ [command]) :
      Effect s (.processFinalCommand throws)
        { s with finalCommands, ran := s.ran ++ [command], ended := throws }
  | finish {queue : State} (hcommands : s.finalCommands = [] ∨ s.ended = true)
      (hqueue : AjaxQueue.step s.queue .finish = some queue) :
      Effect s (.queue .finish) { s with queue, ended := false }

theorem effect_of_command {final : Bool} (h : s.command final = some t) :
    Effect s (.command final) t := by
  unfold Shim.command at h
  split at h
  · rename_i henabled
    obtain rfl := Option.some.inj h
    split
    · rename_i hfinal
      obtain ⟨rfl, hrun⟩ := Bool.and_eq_true_iff.mp hfinal
      exact .putOff henabled.2 hrun
    · exact .now
  · cases h

theorem effect_of_processFinalCommand {throws : Bool} (h : s.processFinalCommand throws = some t) :
    Effect s (.processFinalCommand throws) t := by
  unfold Shim.processFinalCommand at h
  split at h
  · rename_i henabled
    obtain ⟨command, hlast, rfl⟩ := Option.map_eq_some_iff.mp h
    obtain ⟨finalCommands, hcommands⟩ := List.getLast?_eq_some_iff.mp hlast
    have hdrop : s.finalCommands.dropLast = finalCommands := by
      rw [hcommands, List.dropLast_concat]
    exact hdrop ▸ .run henabled.2.1 hcommands
  · cases h

theorem effect_of_step (h : step s a = some t) : Effect s a t := by
  cases a with
  | queue a =>
    by_cases ha : a = .finish
    · subst ha
      change s.finish = some t at h
      unfold Shim.finish at h
      split at h
      · rename_i hcommands
        obtain ⟨queue, hqueue, rfl⟩ := Option.map_eq_some_iff.mp h
        exact .finish hcommands hqueue
      · cases h
    · have hmap : (AjaxQueue.step s.queue a).map ({ s with queue := · }) = some t := by
        cases a with
        | finish => exact absurd rfl ha
        | _ => exact h
      obtain ⟨queue, hqueue, rfl⟩ := Option.map_eq_some_iff.mp hmap
      exact .queue ha hqueue
  | command final => exact effect_of_command h
  | processFinalCommand throws => exact effect_of_processFinalCommand h

end Steps

/-- What has been delivered has run or is pending, and the pending commands are in the order of
their delivery. -/
structure Counted (s : Shim) : Prop where
  perm : (s.ran ++ s.finalCommands).Perm (List.range s.count)
  sorted : s.finalCommands.Pairwise (· < ·)

section Counting

variable {s t : Shim} {a : Action}

theorem Counted.step (hs : Counted s) (h : step s a = some t) : Counted t := by
  cases effect_of_step h with
  | queue | now | finish => exact ⟨hs.perm, hs.sorted⟩
  | putOff =>
    refine ⟨?_, ?_⟩
    · change (s.ran ++ (s.finalCommands ++ [s.count])).Perm (List.range (s.count + 1))
      rw [← List.append_assoc, List.range_succ]
      exact hs.perm.append_right [s.count]
    · refine List.pairwise_append.mpr ⟨hs.sorted, List.pairwise_singleton _ _, ?_⟩
      intro command hcommand count hcount
      have hmem := hs.perm.mem_iff.mp (List.mem_append_right s.ran hcommand)
      rw [List.mem_singleton.mp hcount]
      exact List.mem_range.mp hmem
  | @run _ finalCommands command _ hcommands =>
    have hperm := hs.perm
    have hsorted := hs.sorted
    rw [hcommands] at hperm hsorted
    refine ⟨?_, (List.pairwise_append.mp hsorted).1⟩
    refine List.Perm.trans ?_ hperm
    rw [List.append_assoc]
    exact (List.perm_append_comm).append_left s.ran

theorem Counted.finalCommands_eq (hs : Counted s) (hran : s.ran = List.range s.ran.length) :
    s.finalCommands = List.range' s.ran.length s.finalCommands.length := by
  have hlength : s.ran.length + s.finalCommands.length = s.count := by
    simpa using hs.perm.length_eq
  have hsplit : List.range s.count =
      List.range s.ran.length ++ List.range' s.ran.length s.finalCommands.length := by
    rw [List.range_eq_range', List.range_eq_range', ← hlength]
    simpa using (List.range'_append_1 (s := 0) (m := s.ran.length)
      (n := s.finalCommands.length)).symm
  have hperm := hs.perm
  rw [hsplit, hran, List.length_range, List.perm_append_left_iff] at hperm
  refine hperm.eq_of_pairwise ?_ hs.sorted List.pairwise_lt_range'
  intro m n _ _ hmn hnm
  omega

theorem ran_extends (h : step s a = some t) : s.ran <+: t.ran := by
  cases effect_of_step h with
  | queue | now | putOff | finish => exact List.prefix_rfl
  | run => exact List.prefix_append _ _

theorem order_of_prefix {m n : List ℕ} (h : m <+: n) (hn : n = List.range n.length) :
    m = List.range m.length := by
  rw [List.prefix_iff_eq_take.mp h, hn, List.take_range, List.length_range]

theorem Counted.order_run (hs : Counted s) (hran : s.ran = List.range s.ran.length)
    {finalCommands : List ℕ} {command : ℕ}
    (hcommands : s.finalCommands = finalCommands ++ [command]) :
    s.ran ++ [command] = List.range (s.ran ++ [command]).length ↔ s.finalCommands.length = 1 := by
  have heq := hs.finalCommands_eq hran
  have hlength : s.finalCommands.length = finalCommands.length + 1 := by simp [hcommands]
  have hcommand : command = s.ran.length + finalCommands.length := by
    rw [hlength, List.range'_concat, hcommands] at heq
    simpa using (List.append_inj' heq rfl).2
  rw [List.length_append, List.length_singleton, List.range_succ, ← hran,
    List.append_cancel_left_eq, List.singleton_inj, hcommand, hlength]
  omega

end Counting

/-- What is pending was delivered, and the queue has become complete since when its handler
runs. -/
def Waited (hist : List (Shim × Action)) (s : Shim) : Prop :=
  ∀ command ∈ s.finalCommands, ∃ before d after, hist = before ++ d :: after ∧
    Delivers d command ∧ (s.queue.handler = some .queueComplete → ∃ f ∈ after, Completes f)

section Waiting

variable {hist : List (Shim × Action)} {s t : Shim} {a : Action}

theorem completes_of_step {a : AjaxQueue.Action} {queue : State}
    (h : AjaxQueue.step s.queue a = some queue) (hqueue : queue.handler = some .queueComplete) :
    s.queue.handler = some .queueComplete ∨ Completes (s, .queue a) := by
  cases AjaxQueue.effect_of_step h with
  | push | async | send => exact .inl hqueue
  | start => exact .inl ((handler_dequeue s.queue.push).symm.trans hqueue)
  | complete => cases hqueue
  | last _ hhandler hq hrun => exact .inr ⟨rfl, hq, _, hhandler, hrun⟩
  | settle => cases (handler_dequeue _).symm.trans hqueue
  | finish => cases (handler_dequeue _).symm.trans hqueue

theorem handler_of_step {a : AjaxQueue.Action} {queue : State}
    (h : AjaxQueue.step s.queue a = some queue) (ha : a ≠ .finish)
    (hhandler : s.queue.handler = some .queueComplete) : queue.handler = some .queueComplete := by
  cases AjaxQueue.effect_of_step h with
  | push | async | send => exact hhandler
  | start => exact (handler_dequeue s.queue.push).trans hhandler
  | complete hloop => cases hloop.2.symm.trans hhandler
  | last _ hcallback => cases hcallback.symm.trans hhandler
  | settle _ hcallback => cases hcallback.symm.trans hhandler
  | finish => exact absurd rfl ha

theorem waited_concat (hs : Waited hist s) (hcommands : t.finalCommands ⊆ s.finalCommands)
    (hqueue : t.queue.handler = some .queueComplete →
      s.queue.handler = some .queueComplete ∨ Completes (s, a)) :
    Waited (hist ++ [(s, a)]) t := by
  intro command hcommand
  obtain ⟨before, d, after, rfl, hd, hcomplete⟩ := hs command (hcommands hcommand)
  refine ⟨before, d, after ++ [(s, a)], by simp, hd, fun hhandler => ?_⟩
  rcases hqueue hhandler with hhandler | hlast
  · obtain ⟨f, hf, hcompletes⟩ := hcomplete hhandler
    exact ⟨f, List.mem_append_left _ hf, hcompletes⟩
  · exact ⟨(s, a), List.mem_append_right _ (List.mem_singleton_self _), hlast⟩

theorem waited_step (hs : Waited hist s) (h : step s a = some t) :
    Waited (hist ++ [(s, a)]) t := by
  cases effect_of_step h with
  | queue _ hqueue =>
    exact waited_concat hs (List.Subset.refl _) (completes_of_step hqueue)
  | now => exact waited_concat hs (List.Subset.refl _) .inl
  | putOff hhandler hrun =>
    intro command hcommand
    rcases List.mem_append.mp hcommand with hold | hnew
    · have hwaited := waited_concat (t := s) (a := .command true) hs (List.Subset.refl _) .inl
      exact hwaited command hold
    · refine ⟨hist, (s, .command true), [], rfl, ⟨rfl, hrun, ?_⟩, fun hh => absurd hh hhandler⟩
      exact (List.mem_singleton.mp hnew).symm
  | @run _ finalCommands command _ hcommands =>
    refine waited_concat hs ?_ .inl
    rw [hcommands]
    exact List.subset_append_left _ _
  | finish _ hqueue =>
    exact waited_concat hs (List.Subset.refl _) (completes_of_step hqueue)

end Waiting

section Runs

variable {hist : List (Shim × Action)} {s t : Shim} {a : Action}

theorem counted_init : Counted init := ⟨.refl _, .nil⟩

theorem counted_of_run (h : Run step init hist s) : Counted s :=
  h.invariant (fun _ _ _ hs hstep => hs.step hstep) counted_init

theorem waited_of_run (h : Run step init hist s) : Waited hist s :=
  h.history_of (C := fun _ _ => True) (J := Waited)
    (fun _ _ _ _ _ hs _ hstep => waited_step hs hstep) (fun _ _ => trivial)
    fun _ hcommand => absurd hcommand List.not_mem_nil

theorem late_of_run (h : Run step init hist s) {head : List (Shim × Action)}
    {e : Shim × Action} {command : ℕ} (hpre : head ++ [e] <+: hist)
    (hruns : RunsCommand e command) :
    ∃ before d after, head = before ++ d :: after ∧ Delivers d command ∧
      ∃ f ∈ after, Completes f := by
  obtain ⟨t, hrun, hstep⟩ := h.at_prefix hpre
  obtain ⟨⟨throws, hlabel⟩, hlast⟩ := hruns
  obtain ⟨before, d, after, hsplit, hd, hcomplete⟩ :=
    waited_of_run hrun command (List.mem_of_getLast? hlast)
  rw [hlabel] at hstep
  cases effect_of_step hstep with
  | run hhandler => exact ⟨before, d, after, hsplit, hd, hcomplete hhandler⟩

/-- A command that has thrown leaves none behind when it was the only one. -/
theorem ended_of_run (h : Run step init hist s) (halone : ∀ e ∈ hist, Alone e.1 e.2) :
    s.ended = true → s.queue.handler = some .queueComplete ∧ s.finalCommands = [] := by
  refine h.invariant_of (C := Alone) (I := fun s => s.ended = true →
    s.queue.handler = some .queueComplete ∧ s.finalCommands = []) ?_ halone
    (fun hended => by cases hended)
  intro s a t hs halone hstep
  cases effect_of_step hstep with
  | queue ha hqueue =>
    intro hended
    obtain ⟨hhandler, hcommands⟩ := hs hended
    exact ⟨handler_of_step hqueue ha hhandler, hcommands⟩
  | now => exact hs
  | putOff hhandler => exact fun hended => absurd (hs hended).1 hhandler
  | run hhandler hcommands =>
    intro _
    have hlength : s.finalCommands.length = 1 := halone
    rw [hcommands, List.length_append, List.length_singleton] at hlength
    exact ⟨hhandler, List.length_eq_zero_iff.mp (Nat.succ.inj hlength)⟩
  | finish => exact fun hended => by cases hended

theorem order_of_alone (h : Run step init hist s) (halone : ∀ e ∈ hist, Alone e.1 e.2) :
    s.ran = List.range s.ran.length := by
  have hsound : Counted s ∧ s.ran = List.range s.ran.length := by
    refine h.invariant_of (C := Alone) (I := fun s => Counted s ∧ s.ran = List.range s.ran.length)
      ?_ halone ⟨counted_init, rfl⟩
    rintro s a t ⟨hs, horder⟩ halone hstep
    refine ⟨hs.step hstep, ?_⟩
    cases effect_of_step hstep with
    | queue | now | putOff | finish => exact horder
    | run _ hcommands => exact (hs.order_run horder hcommands).mpr halone
  exact hsound.2

theorem alone_of_order (h : Run step init hist s) (horder : s.ran = List.range s.ran.length) :
    ∀ e ∈ hist, Alone e.1 e.2 := by
  induction h with
  | start => exact fun _ he => absurd he List.not_mem_nil
  | @next hist s t a run taken ih =>
    have hran : s.ran = List.range s.ran.length := order_of_prefix (ran_extends taken) horder
    intro e he
    rcases List.mem_append.mp he with he | he
    · exact ih hran e he
    · obtain rfl := List.mem_singleton.mp he
      cases effect_of_step taken with
      | queue | now | putOff | finish => trivial
      | run _ hcommands => exact ((counted_of_run run).order_run hran hcommands).mp horder

/-- The final commands run last and in order exactly when each is the only one pending. -/
theorem runsInOrder_iff (h : Run step init hist s) :
    RunsInOrder hist s ↔ ∀ e ∈ hist, Alone e.1 e.2 := by
  constructor
  · intro hruns
    exact alone_of_order h hruns.order
  · intro halone
    refine ⟨fun head e command => late_of_run h, order_of_alone h halone, fun e he hfinish => ?_⟩
    obtain ⟨head, t, hpre, hrun, hstep⟩ := h.at_mem he
    have hhead : ∀ e ∈ head, Alone e.1 e.2 := fun e' he' =>
      halone e' (hpre.subset (List.mem_append_left _ he'))
    have hcommands : e.1.finalCommands = [] := by
      rw [hfinish] at hstep
      cases effect_of_step hstep with
      | queue ha => exact absurd rfl ha
      | finish hcommands => exact hcommands.elim id fun hended => (ended_of_run hrun hhead hended).2
    simpa [hcommands] using (counted_of_run hrun).perm.length_eq

/-- Two posts, of which the second is made when the first one's final command has run. -/
def onePending : List Action :=
  [.queue (.enqueue false), .queue .send, .queue (.complete 1), .command true, .queue .settle,
    .processFinalCommand false, .queue .finish,
    .queue (.enqueue false), .queue .send, .queue (.complete 2), .command true, .queue .settle,
    .processFinalCommand true, .queue .finish]

/-- The second post is made while the first one is running. -/
def twoPending : List Action :=
  [.queue (.enqueue false), .queue .send, .queue (.enqueue false), .queue (.complete 1),
    .command true, .queue .settle, .queue .send, .queue (.complete 2), .command true,
    .queue .settle, .processFinalCommand false]

theorem onePending_runs : (exec step init onePending).isSome = true := by decide

theorem runsInOrder_iff_onePending :
    RunsInOrder (history step init onePending) (final step init onePending onePending_runs) :=
  (runsInOrder_iff (run_history (Option.some_get onePending_runs).symm)).mpr (by decide)

theorem twoPending_runs : (exec step init twoPending).isSome = true := by decide

/-- The command of the second response runs first. -/
theorem second_runs_first : ∃ s, Run step init (history step init twoPending) s ∧ s.ran = [1] ∧
    ¬RunsInOrder (history step init twoPending) s := by
  refine ⟨_, run_history (Option.some_get twoPending_runs).symm, rfl, fun h => ?_⟩
  exact absurd h.order (by decide)

end Runs

end GoraddServe.FinalCommands
