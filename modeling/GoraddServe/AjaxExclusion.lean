import GoraddServe.AjaxQueue

/-!
# One queued request at a time

A request of the queue is unfinished from the call of its function until it is deleted from
the running ones. Queued and async requests share the table of running requests, and every
completion takes the next function out of the queue. So a function can be called while an
earlier request is unfinished: when an async request completes, when a function of the queue
puts another one into it before its own request runs, and when the handlers of
`ajaxQueueComplete` put two functions into the queue. In all other runs one request of the
queue is unfinished at most.
-/
namespace GoraddServe.AjaxQueue
open LabelledRuns

/-- The requests of the queue whose function was called and which are not deleted yet. -/
def unfinished (s : State) : List Call :=
  (s.building ++ s.currentRequests.map Request.call).filter (!·.async)

def Exclusive (s : State) : Prop := (unfinished s).length ≤ 1

/-- A function of the queue is called only when no request of the queue is unfinished. -/
def Careful (s : State) : Action → Prop
  | .enqueue false => s.currentRequests = [] → ∀ call ∈ s.building, call.async = true
  | .settle => s.q ≠ [] → ∀ r ∈ s.currentRequests,
      s.handler ≠ some (.callback r.ajaxID) → r.call.async = true
  | .finish => s.q ≠ [] → ∀ r ∈ s.currentRequests, r.call.async = true
  | _ => True

instance (s : State) (a : Action) : Decidable (Careful s a) := by
  unfold Careful
  split <;> infer_instance

section Steps

variable {s t : State} {a : Action}

theorem unfinished_eq_nil : unfinished s = [] ↔
    (∀ call ∈ s.building, call.async = true) ∧
      ∀ r ∈ s.currentRequests, r.call.async = true := by
  simp [unfinished, List.filter_eq_nil_iff]

theorem unfinished_dequeue {f : ℕ} {q : List ℕ} (h : s.q = f :: q) :
    unfinished s.dequeue = ⟨f, false⟩ :: unfinished s := by
  rw [dequeue_cons h]
  rfl

theorem exclusive_dequeue (hs : Exclusive s) :
    Exclusive s.dequeue ↔ (s.q ≠ [] → unfinished s = []) := by
  cases hq : s.q with
  | nil => simpa [dequeue_nil hq] using hs
  | cons f q => simp [Exclusive, unfinished_dequeue hq]

theorem unfinished_delete (s : State) (ajaxID : ℕ) :
    (unfinished (s.delete ajaxID)).Sublist (unfinished s) :=
  (List.Sublist.append_left (List.filter_sublist.map _) _).filter _

theorem exclusive_delete (hs : Exclusive s) (ajaxID : ℕ) : Exclusive (s.delete ajaxID) :=
  Nat.le_trans (unfinished_delete s ajaxID).length_le hs

theorem unfinished_send {call : Call} {building : List Call} {idCounter ajaxID : ℕ}
    (h : s.building = call :: building) :
    (unfinished { s with
      building, idCounter, currentRequests := s.currentRequests ++ [⟨ajaxID, call⟩] }).Perm
      (unfinished s) := by
  refine List.Perm.filter _ ?_
  rw [h, List.map_append, ← List.append_assoc]
  exact List.perm_append_singleton call _

theorem exclusive_step (h : step s a = some t) (hs : Exclusive s) : Exclusive t ↔ Careful s a := by
  cases effect_of_step h with
  | push hrun =>
    refine iff_of_true hs fun hidle => absurd hidle hrun
  | start hrun =>
    have hpush : s.push.q ≠ [] := by simp [State.push]
    have hunfinished : unfinished s.push = unfinished s := rfl
    rw [exclusive_dequeue (show Exclusive s.push from hs), hunfinished, unfinished_eq_nil]
    simp only [hpush, hrun, Careful, ne_eq, not_false_eq_true, forall_const, List.not_mem_nil,
      false_implies, implies_true, and_true]
  | async => exact iff_of_true hs trivial
  | send hcall =>
    refine iff_of_true ?_ trivial
    exact Nat.le_trans (Nat.le_of_eq (unfinished_send hcall).length_eq) hs
  | complete => exact iff_of_true hs trivial
  | last hbuilding hhandler hq hrun =>
    exact iff_of_true (exclusive_delete hs _) fun hne => absurd hq hne
  | @settle ajaxID hbuilding hhandler hmore =>
    rw [exclusive_dequeue (exclusive_delete hs ajaxID), unfinished_eq_nil, Careful]
    refine imp_congr_right fun _ => ?_
    simp [State.delete, hbuilding, hhandler, eq_comm (a := ajaxID)]
  | finish hbuilding hhandler =>
    have hs' : Exclusive { s with handler := none } := hs
    rw [exclusive_dequeue hs', unfinished_eq_nil, Careful]
    simp [hbuilding]

end Steps

/-- In exactly the runs that take care at every step, one request of the queue is unfinished
at most in every state. -/
theorem exclusive_iff_careful {hist : List (State × Action)} {t : State}
    (h : Run step init hist t) :
    ((∀ e ∈ hist, Exclusive e.1) ∧ Exclusive t) ↔ ∀ e ∈ hist, Careful e.1 e.2 := by
  induction h with
  | start => simp [Exclusive, unfinished, init]
  | @next hist s t a run taken ih =>
    simp only [List.mem_append, List.mem_singleton, or_imp, forall_and, forall_eq]
    rw [← ih]
    exact and_congr_right fun hs => exclusive_step taken hs.2

/-- An async request is sent and completes beside the first function, before the second one is put
into the queue, which has to wait for the first. -/
def waiting : List Action :=
  [.enqueue false, .send, .enqueue true, .send, .complete 2, .settle, .enqueue false, .complete 1,
    .settle, .send, .complete 3, .settle, .finish]

theorem waiting_runs : (exec step init waiting).isSome = true := by decide

theorem exclusive_iff_careful_waiting :
    (final step init waiting waiting_runs).called = [0, 2] ∧
      ∀ e ∈ history step init waiting, Exclusive e.1 := by
  have hrun : Run step init (history step init waiting) (final step init waiting waiting_runs) :=
    run_history (Option.some_get _).symm
  have hcareful : ∀ e ∈ history step init waiting, Careful e.1 e.2 := by decide
  exact ⟨by decide, ((exclusive_iff_careful hrun).mpr hcareful).1⟩

/-- Two functions are put into the queue, and an async request completes between them. -/
def overtaking : List Action :=
  [.enqueue false, .send, .enqueue false, .enqueue true, .send, .complete 2, .settle, .send]

theorem overtaking_runs : (exec step init overtaking).isSome = true := by decide

/-- The second request of the queue is in flight beside the first one. -/
theorem overtaking_not_exclusive :
    ∃ hist t, Run step init hist t ∧ hist.map Prod.snd = overtaking ∧
      t.currentRequests = [⟨1, ⟨0, false⟩⟩, ⟨3, ⟨1, false⟩⟩] := by
  obtain ⟨hist, run, hlabels⟩ := run_final overtaking_runs
  exact ⟨hist, _, run, hlabels, by decide⟩

end GoraddServe.AjaxQueue
