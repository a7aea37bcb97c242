import GoraddServe.AjaxQueue

/-!
# The order of the queue

The functions that were called, followed by those that wait, are the functions that were put
into the queue. While a function waits, a request runs, a function has not returned or
`onreadystatechange` has not: each of these ends in a request that runs or in the call of the
first function that waits. So no function is lost as long as every request completes.
-/
namespace GoraddServe.AjaxQueue
open LabelledRuns

/-- The record of the queue. -/
structure Ordered (s : State) : Prop where
  log : s.enqueued = s.called ++ s.q
  increasing : s.enqueued.Pairwise (· < ·)
  fresh : ∀ f ∈ s.enqueued, f < s.count

def Served (s : State) : Prop :=
  s.q ≠ [] → s.currentRequests ≠ [] ∨ s.building ≠ [] ∨ s.handler ≠ none

/-- What is recorded stays recorded. -/
structure Extends (s t : State) : Prop where
  enqueued : s.enqueued <+: t.enqueued
  called : s.called <+: t.called

section Steps

variable {s t u : State} {a : Action}

theorem Ordered.push (hs : Ordered s) : Ordered s.push := by
  refine ⟨?_, ?_, ?_⟩
  · simp [State.push, hs.log]
  · refine List.pairwise_append.mpr ⟨hs.increasing, List.pairwise_singleton _ _, ?_⟩
    intro f hf g hg
    exact List.mem_singleton.mp hg ▸ hs.fresh f hf
  · intro f hf
    rcases List.mem_append.mp hf with hf | hf
    · exact Nat.lt_succ_of_lt (hs.fresh f hf)
    · exact List.mem_singleton.mp hf ▸ Nat.lt_succ_self _

theorem Ordered.dequeue (hs : Ordered s) : Ordered s.dequeue := by
  cases hq : s.q with
  | nil => rwa [dequeue_nil hq]
  | cons f q =>
    rw [dequeue_cons hq]
    exact ⟨by simp [hs.log, hq], hs.increasing, hs.fresh⟩

theorem Ordered.step (hs : Ordered s) (h : step s a = some t) : Ordered t := by
  cases effect_of_step h with
  | push => exact hs.push
  | start => exact hs.push.dequeue
  | async => exact ⟨hs.log, hs.increasing, fun f hf => Nat.lt_succ_of_lt (hs.fresh f hf)⟩
  | send => exact ⟨hs.log, hs.increasing, hs.fresh⟩
  | complete => exact ⟨hs.log, hs.increasing, hs.fresh⟩
  | last => exact ⟨hs.log, hs.increasing, hs.fresh⟩
  | @settle ajaxID =>
    have hdelete : Ordered (s.delete ajaxID) := ⟨hs.log, hs.increasing, hs.fresh⟩
    exact hdelete.dequeue
  | finish =>
    have hfinish : Ordered { s with handler := none } := ⟨hs.log, hs.increasing, hs.fresh⟩
    exact hfinish.dequeue

theorem served_dequeue : Served s.dequeue := by
  intro hwait
  cases hq : s.q with
  | nil =>
    rw [dequeue_nil hq] at hwait
    exact absurd hq hwait
  | cons f q =>
    rw [dequeue_cons hq]
    exact .inr (.inl (List.cons_ne_nil _ _))

theorem served_step (h : step s a = some t) : Served t := by
  cases effect_of_step h with
  | push hrun => exact fun _ => .inl hrun
  | start => exact served_dequeue
  | async => exact fun _ => .inr (.inl (List.cons_ne_nil _ _))
  | send => exact fun _ => .inl (by simp)
  | complete => exact fun _ => .inr (.inr (Option.some_ne_none _))
  | last => exact fun _ => .inr (.inr (Option.some_ne_none _))
  | settle => exact served_dequeue
  | finish => exact served_dequeue

theorem Extends.refl (s : State) : Extends s s := ⟨List.prefix_rfl, List.prefix_rfl⟩

theorem Extends.trans (h : Extends s t) (h' : Extends t u) : Extends s u :=
  ⟨h.enqueued.trans h'.enqueued, h.called.trans h'.called⟩

theorem extends_dequeue (s : State) : Extends s s.dequeue := by
  cases hq : s.q with
  | nil =>
    rw [dequeue_nil hq]
    exact .refl s
  | cons f q =>
    rw [dequeue_cons hq]
    exact ⟨List.prefix_rfl, List.prefix_append _ _⟩

theorem extends_push (s : State) : Extends s s.push :=
  ⟨List.prefix_append _ _, List.prefix_rfl⟩

theorem extends_step (h : step s a = some t) : Extends s t := by
  cases effect_of_step h with
  | push => exact extends_push s
  | start => exact (extends_push s).trans (extends_dequeue _)
  | @settle ajaxID =>
    have hdelete : Extends s (s.delete ajaxID) := ⟨List.prefix_rfl, List.prefix_rfl⟩
    exact hdelete.trans (extends_dequeue _)
  | finish =>
    have hfinish : Extends s { s with handler := none } := ⟨List.prefix_rfl, List.prefix_rfl⟩
    exact hfinish.trans (extends_dequeue _)
  | async | send | complete | last => exact ⟨List.prefix_rfl, List.prefix_rfl⟩

theorem called_of_ends {r : Request} (h : step s a = some t) (hr : r ∈ s.currentRequests)
    (hends : r ∉ t.currentRequests) (hwait : s.q ≠ []) : s.called.length < t.called.length := by
  have hdequeue : ∀ u : State, u.q = s.q → u.called = s.called →
      s.called.length < u.dequeue.called.length := by
    intro u hq hcalled
    obtain ⟨f, q, hfq⟩ := List.exists_cons_of_ne_nil (hq ▸ hwait)
    rw [dequeue_cons hfq]
    simp [hcalled]
  cases effect_of_step h with
  | push | async | complete => exact absurd hr hends
  | start hrun => simp [hrun] at hr
  | send => exact absurd (List.mem_append_left _ hr) hends
  | last _ _ hq => exact absurd hq hwait
  | settle => exact hdequeue _ rfl rfl
  | finish => exact hdequeue _ rfl rfl

end Steps

section Runs

variable {hist : List (State × Action)} {s t : State}

theorem ordered_run (h : Run step init hist t) : Ordered t :=
  h.invariant (fun _ _ _ hs => hs.step) ⟨rfl, .nil, fun f hf => by cases hf⟩

theorem served_run (h : Run step init hist t) : Served t :=
  h.invariant (fun _ _ _ _ => served_step) fun hwait => absurd rfl hwait

theorem Ordered.nodup (ht : Ordered t) : t.called.Nodup :=
  (List.pairwise_append.mp (ht.log ▸ ht.increasing)).1.imp Nat.ne_of_lt

/-- Control returns to the event loop again and again, and every request that runs ends. -/
structure Completes (p : Path step s) : Prop where
  returns : ∀ i, ∃ j ≥ i, (p.state j).AtEventLoop
  ends : ∀ i, ∀ r ∈ (p.state i).currentRequests, ∃ j ≥ i, r ∉ (p.state j).currentRequests

theorem extends_path (p : Path step s) {i j : ℕ} (hij : i ≤ j) :
    Extends (p.state i) (p.state j) :=
  p.related Extends.refl (fun _ _ _ => Extends.trans) (fun _ _ _ => extends_step) hij

/-- As long as a function waits, another one is called. -/
theorem Completes.calls {p : Path step s} (hp : Completes p) (h : Run step init hist s) (i : ℕ)
    (hwait : (p.state i).called.length < (p.state i).enqueued.length) :
    ∃ j, (p.state i).called.length < (p.state j).called.length := by
  obtain ⟨j, hij, hbuilding, hhandler⟩ := hp.returns i
  by_cases hmore : (p.state i).called.length < (p.state j).called.length
  · exact ⟨j, hmore⟩
  have hq : ∀ k ≥ i, (p.state k).called.length ≤ (p.state i).called.length →
      (p.state k).q ≠ [] := by
    intro k hik hk hq
    obtain ⟨before, run⟩ := p.reaches k
    have hlog := (ordered_run (h.trans run)).log
    rw [hq, List.append_nil] at hlog
    have hgrow := (extends_path p hik).enqueued.length_le
    rw [hlog] at hgrow
    exact absurd hwait (by omega)
  obtain ⟨before, run⟩ := p.reaches j
  have hrun : (p.state j).currentRequests ≠ [] := by
    rcases served_run (h.trans run) (hq j hij (by omega)) with hr | hb | hh
    · exact hr
    · exact absurd hbuilding hb
    · exact absurd hhandler hh
  -- the request that runs then ends at some step, which calls the next function
  obtain ⟨r, hr⟩ := List.exists_mem_of_ne_nil _ hrun
  obtain ⟨l, hjl, hl⟩ := hp.ends j r hr
  obtain ⟨k, a, hjk, hrk, hstep, hends⟩ :=
    p.exists_step (P := fun u => r ∈ u.currentRequests) hjl hr hl
  by_cases hmore : (p.state i).called.length < (p.state k).called.length
  · exact ⟨k, hmore⟩
  have hik : i ≤ k := Nat.le_trans hij hjk
  have hcalled := called_of_ends hstep hrk hends (hq k hik (by omega))
  have hgrow := (extends_path p hik).called.length_le
  exact ⟨k + 1, Nat.lt_of_le_of_lt hgrow hcalled⟩

theorem Completes.calls_all {p : Path step s} (hp : Completes p) (h : Run step init hist s)
    {n : ℕ} (hn : n ≤ s.enqueued.length) : ∃ i, n ≤ (p.state i).called.length := by
  induction n with
  | zero => exact ⟨0, Nat.zero_le _⟩
  | succ n ih =>
    obtain ⟨i, hi⟩ := ih (by omega)
    by_cases hdone : n < (p.state i).called.length
    · exact ⟨i, hdone⟩
    have hgrow := (extends_path p (Nat.zero_le i)).enqueued.length_le
    rw [p.start] at hgrow
    obtain ⟨j, hj⟩ := hp.calls h i (by omega)
    exact ⟨j, by omega⟩

/-- The queue keeps its order and loses no function. -/
theorem queue_order (h : Run step init hist t) :
    (t.AtEventLoop → t.q ≠ [] → t.isRunning = true) ∧
      t.called <+: t.enqueued ∧ t.called.Nodup ∧
      ∀ p : Path step t, Completes p →
        ∀ f ∈ t.enqueued, ∃ i, ∀ j ≥ i, (p.state j).called.count f = 1 := by
  have ht := ordered_run h
  refine ⟨?_, ht.log ▸ List.prefix_append _ _, ht.nodup, ?_⟩
  · rintro ⟨hbuilding, hhandler⟩ hwait
    rcases served_run h hwait with hr | hb | hh
    · exact isRunning_eq_true.mpr hr
    · exact absurd hbuilding hb
    · exact absurd hhandler hh
  · intro p hp f hf
    obtain ⟨i, hi⟩ := hp.calls_all h (Nat.le_refl _)
    refine ⟨i, fun j hij => ?_⟩
    obtain ⟨before, run⟩ := p.reaches j
    have hj := ordered_run (h.trans run)
    have hlength := (extends_path p hij).called.length_le
    -- what was put into the queue by then is a prefix of what was called
    have hcalled : t.enqueued <+: (p.state j).called := by
      have hput := (extends_path p (Nat.zero_le j)).enqueued
      rw [p.start] at hput
      have hcalled : (p.state j).called <+: (p.state j).enqueued :=
        hj.log ▸ List.prefix_append _ _
      exact List.prefix_of_prefix_length_le hput hcalled (Nat.le_trans hi hlength)
    exact List.count_eq_one_of_mem hj.nodup (hcalled.subset hf)

end Runs

/-- A function is put into the queue while a request runs, and both requests complete. -/
def draining : List Action :=
  [.enqueue false, .send, .enqueue false, .complete 1, .settle, .send, .complete 2, .settle,
    .finish]

theorem draining_runs : (exec step init draining).isSome = true := by decide

theorem queue_order_draining : ∃ hist t, Run step init hist t ∧ t.enqueued = [0, 1] ∧
    ∀ f ∈ t.enqueued, t.called.count f = 1 := by
  obtain ⟨hist, run, -⟩ := run_final draining_runs
  have hloop : (final step init draining draining_runs).AtEventLoop := by decide
  have hnone : (final step init draining draining_runs).currentRequests = [] := by decide
  have hcompletes : Completes (Path.stay step (final step init draining draining_runs)) := by
    refine ⟨fun i => ⟨i, Nat.le_refl i, hloop⟩, fun i r hr => absurd hr ?_⟩
    exact hnone ▸ List.not_mem_nil
  refine ⟨hist, _, run, by decide, fun f hf => ?_⟩
  obtain ⟨i, hi⟩ := (queue_order run).2.2.2 _ hcompletes f hf
  exact hi i (Nat.le_refl i)

end GoraddServe.AjaxQueue
