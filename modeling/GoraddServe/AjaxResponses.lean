import GoraddServe.AjaxOrder

/-!
# The responses to ajax posts

The response to a post is applied by `_processAjax2` once its style sheets and scripts have
loaded or failed. Meanwhile the queue goes on, so a later response can be applied first. It
is not when each response finds, at the moment it is applied, that every request posted
earlier was answered and its response was applied.
-/
namespace GoraddServe.AjaxResponses
open LabelledRuns AjaxQueue

/-- The files that a response names. -/
structure Json where
  ss : List String
  js : List String
  deriving DecidableEq

/-- A response that `_processAjax` has taken up, under the call of `postAjax` it answers. -/
structure Response where
  f : ℕ
  loadCount : ℕ
  deriving DecidableEq

/-- The queue of the posts, the responses that wait for files, and a record of the responses
that `_processAjax2` was called for. -/
structure Page where
  queue : State
  blockEvents : Bool
  loading : List Response
  applied : List ℕ
  deriving DecidableEq

def init : Page := ⟨AjaxQueue.init, false, [], []⟩

namespace Page

variable (p : Page)

def postAjax : Page :=
  if p.blockEvents then p else { p with queue := p.queue.enqueue false }

/-- The function that `_processAjax` makes for each response, and hands to its files. -/
def fWait (f : ℕ) : Page :=
  match p.loading.find? (·.f = f) with
  | none => p
  | some r =>
    let loadCount := r.loadCount - 1
    let loading := p.loading.filter (·.f ≠ f)
    if loadCount = 0 then { p with loading, applied := p.applied ++ [f] }
    else { p with loading := loading ++ [⟨f, loadCount⟩] }

def processAjax (f : ℕ) (json : Json) : Page :=
  let loadCount := 1 + json.ss.length + json.js.length
  let p : Page := { p with loading := p.loading ++ [⟨f, loadCount⟩] }
  p.fWait f

/-- The `success` of a request. -/
def success (ajaxID : ℕ) (json : Json) : Option Page :=
  match p.queue.currentRequests.find? (·.ajaxID = ajaxID), p.queue.complete ajaxID with
  | some r, some queue =>
    let p : Page := { p with queue }
    some { p.processAjax r.call.f json with blockEvents := false }
  | _, _ => none

end Page

/-- `load` is the `onload` or the `onerror` of a file of a response. -/
inductive Action where
  | block (on : Bool)
  | postAjax
  | send
  | success (ajaxID : ℕ) (json : Json)
  | error (ajaxID : ℕ)
  | settle
  | finish
  | load (f : ℕ)
  deriving DecidableEq

def step (p : Page) : Action → Option Page
  | .block on => some { p with blockEvents := on }
  | .postAjax => some p.postAjax
  | .send => p.queue.send.map ({ p with queue := · })
  | .success ajaxID json => p.success ajaxID json
  | .error ajaxID => (p.queue.complete ajaxID).map ({ p with queue := · })
  | .settle => p.queue.settle.map ({ p with queue := · })
  | .finish => p.queue.finish.map ({ p with queue := · })
  | .load f => if f ∈ p.loading.map Response.f then some (p.fWait f) else none

/-- The functions that were called and whose request has no answer yet. -/
def outstanding (s : State) : List ℕ :=
  s.building.map Call.f ++ (s.currentRequests.filter
    fun r => s.handler ≠ some (.callback r.ajaxID)).map fun r => r.call.f

/-- The posts whose request has no answer yet, or an answer that waits for files. -/
def Page.awaited (p : Page) : List ℕ := outstanding p.queue ++ p.loading.map Response.f

/-- A response is applied when no earlier post is still awaited: with its last file, or at
once when it names none. -/
def Careful (p : Page) : Action → Prop
  | .success ajaxID json => json.ss = [] → json.js = [] →
      ∀ r ∈ p.queue.currentRequests, r.ajaxID = ajaxID → ∀ g ∈ p.awaited, r.call.f ≤ g
  | .load f => ∀ r ∈ p.loading, r.f = f → r.loadCount = 1 → ∀ g ∈ p.awaited, f ≤ g
  | _ => True

instance (p : Page) : (a : Action) → Decidable (Careful p a)
  | .success _ _ => inferInstanceAs (Decidable (_ = _ → _ = _ → ∀ r ∈ _, _ → ∀ g ∈ _, _ ≤ g))
  | .load _ => inferInstanceAs (Decidable (∀ r ∈ _, _ → _ → ∀ g ∈ _, _ ≤ g))
  | .block _ | .postAjax | .send | .error _ | .settle | .finish => .isTrue trivial

section Queue

variable {s t : State} {a : AjaxQueue.Action}

/-- A step of the queue calls its first function or none. -/
inductive Calls (s t : State) : Prop where
  | none (hcalled : t.called = s.called) (hperm : (outstanding t).Perm (outstanding s))
  | one (f : ℕ) (hcalled : t.called = s.called ++ [f])
      (hperm : (outstanding t).Perm (f :: outstanding s))

theorem calls_dequeue (s : State) : Calls s s.dequeue := by
  cases hq : s.q with
  | nil =>
    rw [dequeue_nil hq]
    exact .none rfl (.refl _)
  | cons f q =>
    rw [dequeue_cons hq]
    exact .one f rfl (.refl _)

theorem outstanding_delete {ajaxID : ℕ} (h : s.handler = some (.callback ajaxID)) :
    outstanding (s.delete ajaxID) = outstanding s := by
  simp [outstanding, State.delete, h, eq_comm (a := ajaxID)]

theorem outstanding_send {call : Call} {building : List Call} (hs : Identified s)
    (h : s.building = call :: building) :
    (outstanding { s with
      building, idCounter := s.idCounter + 1,
      currentRequests := s.currentRequests ++ [⟨s.idCounter + 1, call⟩] }).Perm
      (outstanding s) := by
  -- no callback has the id that is given out now
  have hnew : s.handler ≠ some (.callback (s.idCounter + 1)) := by
    intro hh
    obtain ⟨r, hr, hid⟩ := hs.handled _ hh
    exact absurd (hs.counted r hr) (by omega)
  unfold outstanding
  rw [h, List.filter_append, List.filter_singleton]
  simp only [hnew, ne_eq, not_false_eq_true, decide_true, List.map_append, List.map_cons]
  rw [← List.append_assoc]
  exact List.perm_append_singleton call.f _

theorem calls_of_step (hs : Identified s) (h : AjaxQueue.step s a = some t)
    (hasync : a ≠ .enqueue true) (hcomplete : ∀ ajaxID, a ≠ .complete ajaxID) : Calls s t := by
  have hof : ∀ u : State, u.called = s.called → outstanding u = outstanding s →
      Calls s u.dequeue := by
    intro u hcalled hout
    cases calls_dequeue u with
    | none hcalled' hperm => exact .none (hcalled ▸ hcalled') (hout ▸ hperm)
    | one f hcalled' hperm => exact .one f (hcalled ▸ hcalled') (hout ▸ hperm)
  cases effect_of_step h with
  | push => exact .none rfl (.refl _)
  | start => exact hof s.push rfl rfl
  | async => exact absurd rfl hasync
  | send hcall => exact .none rfl (outstanding_send hs hcall)
  | complete => exact absurd rfl (hcomplete _)
  | @last ajaxID _ hhandler =>
    refine .none rfl (.of_eq ?_)
    rw [← outstanding_delete hhandler]
    simp [outstanding, State.delete]
  | settle _ hhandler => exact hof _ rfl (outstanding_delete hhandler)
  | finish _ hhandler =>
    refine hof _ rfl ?_
    simp [outstanding, hhandler]

theorem perm_cons_filter {α β : Type*} [DecidableEq β] {key : α → β} {l : List α}
    (h : (l.map key).Nodup) {x : α} (hx : x ∈ l) :
    l.Perm (x :: l.filter fun y => key y ≠ key x) := by
  induction l with
  | nil => cases hx
  | cons y l ih =>
    obtain ⟨hy, hl⟩ := List.nodup_cons.mp h
    rcases List.mem_cons.mp hx with rfl | hx
    · have hothers : ∀ z ∈ l, decide (key z ≠ key x) = true := by
        intro z hz
        exact decide_eq_true fun he => hy (he ▸ List.mem_map_of_mem hz)
      rw [List.filter_cons_of_neg (by simp), List.filter_eq_self.mpr hothers]
    · have hne : key y ≠ key x := fun he => hy (he ▸ List.mem_map_of_mem hx)
      rw [List.filter_cons_of_pos (by simpa using hne)]
      exact ((ih hl hx).cons y).trans (.swap x y _)

theorem outstanding_complete {r : Request} (hs : Identified s) (hr : r ∈ s.currentRequests)
    (h : s.complete r.ajaxID = some t) :
    t.called = s.called ∧ (outstanding s).Perm (r.call.f :: outstanding t) := by
  unfold State.complete at h
  split at h
  case isFalse => cases h
  case isTrue henabled =>
    obtain ⟨⟨hbuilding, hhandler⟩, -⟩ := henabled
    cases h
    have hperm := (perm_cons_filter (hs.increasing.imp Nat.ne_of_lt) hr).map fun r => r.call.f
    have hbefore : outstanding s = s.currentRequests.map fun r => r.call.f := by
      simp [outstanding, hbuilding, hhandler]
    refine ⟨rfl, hbefore ▸ hperm.trans (.of_eq ?_)⟩
    simp [outstanding, hbuilding, eq_comm (a := r.ajaxID)]

end Queue

/-- What was applied is in order, and before everything that is awaited. -/
structure InOrder (p : Page) : Prop where
  queue : Ordered p.queue
  ids : Identified p.queue
  counts : ∀ r ∈ p.loading, 0 < r.loadCount
  awaited_called : ∀ f ∈ p.awaited, f ∈ p.queue.called
  applied_called : ∀ f ∈ p.applied, f ∈ p.queue.called
  nodup : p.awaited.Nodup
  increasing : p.applied.Pairwise (· < ·)
  before : ∀ f ∈ p.applied, ∀ g ∈ p.awaited, f < g

section Steps

variable {p p' : Page} {a : Action}

theorem InOrder.of_quiet (hp : InOrder p) (hqueue : Ordered p'.queue) (hids : Identified p'.queue)
    (hcounts : ∀ r ∈ p'.loading, 0 < r.loadCount) (hcalled : p'.queue.called = p.queue.called)
    (happlied : p'.applied = p.applied) (failed : List ℕ)
    (hawaited : p.awaited.Perm (failed ++ p'.awaited)) : InOrder p' := by
  have hrest : ∀ g ∈ p'.awaited, g ∈ p.awaited :=
    fun g hg => hawaited.symm.subset (List.mem_append_right failed hg)
  refine ⟨hqueue, hids, hcounts, fun f hf => ?_, fun f hf => ?_, ?_, happlied ▸ hp.increasing,
    fun f hf g hg => ?_⟩
  · exact hcalled ▸ hp.awaited_called f (hrest f hf)
  · exact hcalled ▸ hp.applied_called f (happlied ▸ hf)
  · exact (List.nodup_append.mp (hawaited.nodup_iff.mp hp.nodup)).2.1
  · exact hp.before f (happlied ▸ hf) g (hrest g hg)

/-- A function is called: its post is later than all that were called before. -/
theorem InOrder.of_call (hp : InOrder p) {queue : State} (hqueue : Ordered queue)
    (hids : Identified queue) {f : ℕ} (hcalled : queue.called = p.queue.called ++ [f])
    (hperm : (outstanding queue).Perm (f :: outstanding p.queue)) :
    InOrder { p with queue } := by
  have hawaited : Page.awaited { p with queue } |>.Perm (f :: p.awaited) := hperm.append_right _
  have hlater : ∀ g ∈ p.queue.called, g < f := by
    have hincreasing := (List.pairwise_append.mp (hqueue.log ▸ hqueue.increasing)).1
    rw [hcalled, List.pairwise_append] at hincreasing
    exact fun g hg => hincreasing.2.2 g hg f (List.mem_singleton_self f)
  refine ⟨hqueue, hids, hp.counts, fun g hg => ?_, fun g hg => ?_, ?_, hp.increasing,
    fun g hg k hk => ?_⟩
  · rw [hcalled]
    rcases List.mem_cons.mp (hawaited.subset hg) with rfl | hg
    · exact List.mem_append_right _ (List.mem_singleton_self _)
    · exact List.mem_append_left _ (hp.awaited_called g hg)
  · rw [hcalled]
    exact List.mem_append_left _ (hp.applied_called g hg)
  · refine hawaited.nodup_iff.mpr (List.nodup_cons.mpr ⟨fun hf => ?_, hp.nodup⟩)
    exact Nat.lt_irrefl f (hlater f (hp.awaited_called f hf))
  · rcases List.mem_cons.mp (hawaited.subset hk) with rfl | hk
    · exact hlater g (hp.applied_called g hg)
    · exact hp.before g hg k hk

/-- A response is applied that answers the earliest post awaited. -/
theorem InOrder.of_apply (hp : InOrder p) {f : ℕ} {loading : List Response}
    (hcounts : ∀ r ∈ loading, 0 < r.loadCount)
    (hloading : (p.loading.map Response.f).Perm (f :: loading.map Response.f))
    (hleast : ∀ g ∈ p.awaited, f ≤ g) :
    InOrder { p with loading, applied := p.applied ++ [f] } := by
  have hawaited : p.awaited.Perm (f :: (outstanding p.queue ++ loading.map Response.f)) :=
    (hloading.append_left _).trans List.perm_middle
  have hf : f ∈ p.awaited := hawaited.symm.subset List.mem_cons_self
  have hnodup := List.nodup_cons.mp (hawaited.nodup_iff.mp hp.nodup)
  have hrest : ∀ g ∈ outstanding p.queue ++ loading.map Response.f, g ∈ p.awaited :=
    fun g hg => hawaited.symm.subset (List.mem_cons_of_mem f hg)
  refine ⟨hp.queue, hp.ids, hcounts, fun g hg => ?_, fun g hg => ?_, hnodup.2, ?_,
    fun g hg k hk => ?_⟩
  · exact hp.awaited_called g (hrest g hg)
  · rcases List.mem_append.mp hg with hg | hg
    · exact hp.applied_called g hg
    · exact List.mem_singleton.mp hg ▸ hp.awaited_called f hf
  · refine List.pairwise_append.mpr ⟨hp.increasing, List.pairwise_singleton _ _,
      fun g hg k hk => ?_⟩
    exact List.mem_singleton.mp hk ▸ hp.before g hg f hf
  · rcases List.mem_append.mp hg with hg | hg
    · exact hp.before g hg k (hrest k hk)
    · obtain rfl := List.mem_singleton.mp hg
      exact Nat.lt_of_le_of_ne (hleast k (hrest k hk)) fun h => hnodup.1 (h ▸ hk)

theorem InOrder.of_queue (hp : InOrder p) {a : AjaxQueue.Action} {queue : State}
    (h : AjaxQueue.step p.queue a = some queue) (hasync : a ≠ .enqueue true)
    (hcomplete : ∀ ajaxID, a ≠ .complete ajaxID) : InOrder { p with queue } := by
  have hqueue := hp.queue.step h
  have hids := hp.ids.step h
  cases calls_of_step hp.ids h hasync hcomplete with
  | none hcalled hperm =>
    exact hp.of_quiet hqueue hids hp.counts hcalled rfl [] (hperm.symm.append_right _)
  | one f hcalled hperm => exact hp.of_call hqueue hids hcalled hperm

theorem InOrder.fWait (hp : InOrder p) {r : Response} (hr : r ∈ p.loading)
    (hleast : r.loadCount = 1 → ∀ g ∈ p.awaited, r.f ≤ g) : InOrder (p.fWait r.f) := by
  have hnodup : (p.loading.map Response.f).Nodup := (List.nodup_append.mp hp.nodup).2.1
  have hfind : p.loading.find? (·.f = r.f) = some r := by
    cases hfind : p.loading.find? (·.f = r.f) with
    | none => exact absurd (List.find?_eq_none.mp hfind r hr) (by simp)
    | some r' =>
      have hf : r'.f = r.f := by simpa using List.find?_some hfind
      rw [List.inj_on_of_nodup_map hnodup (List.mem_of_find?_eq_some hfind) hr hf]
  have hloading := (perm_cons_filter hnodup hr).map Response.f
  have hcounts : ∀ r' ∈ p.loading.filter (·.f ≠ r.f), 0 < r'.loadCount :=
    fun r' hr' => hp.counts r' (List.mem_of_mem_filter hr')
  have hpos := hp.counts r hr
  unfold Page.fWait
  rw [hfind]
  dsimp only
  split
  · rename_i hlast
    exact hp.of_apply hcounts hloading (hleast (by omega))
  · refine hp.of_quiet hp.queue hp.ids ?_ rfl rfl [] (hloading.trans ?_ |>.append_left _)
    · intro r' hr'
      rcases List.mem_append.mp hr' with hr' | hr'
      · exact hcounts r' hr'
      · obtain rfl := List.mem_singleton.mp hr'
        exact Nat.pos_of_ne_zero (by assumption)
    · rw [List.map_append]
      exact (List.perm_append_singleton _ _).symm

theorem InOrder.success (hp : InOrder p) {ajaxID : ℕ} {json : Json}
    (h : p.success ajaxID json = some p') (hcareful : Careful p (.success ajaxID json)) :
    InOrder p' := by
  unfold Page.success at h
  split at h
  case h_2 => cases h
  case h_1 r queue hfind hcomplete =>
    have hr : r ∈ p.queue.currentRequests := List.mem_of_find?_eq_some hfind
    have hid : r.ajaxID = ajaxID := by simpa using List.find?_some hfind
    obtain ⟨hcalled, hperm⟩ := outstanding_complete hp.ids hr (hid ▸ hcomplete)
    have hstep : AjaxQueue.step p.queue (.complete ajaxID) = some queue := hcomplete
    cases h
    let taken : Response := ⟨r.call.f, 1 + json.ss.length + json.js.length⟩
    let p₁ : Page := { p with queue, loading := p.loading ++ [taken] }
    have hawaited : p.awaited.Perm p₁.awaited := by
      refine (hperm.append_right _).trans ?_
      rw [Page.awaited, List.map_append, ← List.append_assoc]
      exact (List.perm_append_singleton _ _).symm
    have hp₁ : InOrder p₁ := by
      refine hp.of_quiet (hp.queue.step hstep) (hp.ids.step hstep) ?_ hcalled rfl [] hawaited
      intro r' hr'
      rcases List.mem_append.mp hr' with hr' | hr'
      · exact hp.counts r' hr'
      · obtain rfl := List.mem_singleton.mp hr'
        exact Nat.lt_of_lt_of_le Nat.one_pos (by simp only [taken]; omega)
    have hwait : InOrder (p₁.fWait r.call.f) := by
      refine hp₁.fWait (List.mem_append_right _ (List.mem_singleton_self taken)) ?_
      intro hnone g hg
      have hempty : json.ss.length = 0 ∧ json.js.length = 0 := by
        simp only [taken] at hnone
        omega
      exact hcareful (List.length_eq_zero_iff.mp hempty.1) (List.length_eq_zero_iff.mp hempty.2)
        r hr hid g (hawaited.symm.subset hg)
    exact ⟨hwait.queue, hwait.ids, hwait.counts, hwait.awaited_called, hwait.applied_called,
      hwait.nodup, hwait.increasing, hwait.before⟩

theorem InOrder.step (hp : InOrder p) (hcareful : Careful p a) (h : step p a = some p') :
    InOrder p' := by
  cases a with
  | block on =>
    cases h
    exact ⟨hp.queue, hp.ids, hp.counts, hp.awaited_called, hp.applied_called, hp.nodup,
      hp.increasing, hp.before⟩
  | postAjax =>
    obtain rfl : p.postAjax = p' := Option.some.inj h
    unfold Page.postAjax
    split
    · exact hp
    · exact hp.of_queue (a := .enqueue false) rfl (by decide) fun _ h => by cases h
  | send =>
    obtain ⟨queue, hqueue, rfl⟩ := Option.map_eq_some_iff.mp h
    exact hp.of_queue (a := .send) hqueue (by decide) fun _ h => by cases h
  | success ajaxID json => exact hp.success h hcareful
  | error ajaxID =>
    obtain ⟨queue, hqueue, rfl⟩ := Option.map_eq_some_iff.mp h
    have hstep : AjaxQueue.step p.queue (.complete ajaxID) = some queue := hqueue
    cases effect_of_step hstep with
    | @complete r _ hr =>
      obtain ⟨hcalled, hperm⟩ := outstanding_complete hp.ids hr hqueue
      exact hp.of_quiet (hp.queue.step hstep) (hp.ids.step hstep) hp.counts hcalled rfl [r.call.f]
        (hperm.append_right _)
  | settle =>
    obtain ⟨queue, hqueue, rfl⟩ := Option.map_eq_some_iff.mp h
    exact hp.of_queue (a := .settle) hqueue (by decide) fun _ h => by cases h
  | finish =>
    obtain ⟨queue, hqueue, rfl⟩ := Option.map_eq_some_iff.mp h
    exact hp.of_queue (a := .finish) hqueue (by decide) fun _ h => by cases h
  | load f =>
    change (if f ∈ p.loading.map Response.f then some (p.fWait f) else none) = some p' at h
    split at h
    · rename_i hf
      obtain ⟨r, hr, rfl⟩ := List.mem_map.mp hf
      cases h
      exact hp.fWait hr (hcareful r hr rfl)
    · cases h

end Steps

theorem inOrder_init : InOrder init := by
  refine ⟨⟨rfl, .nil, ?_⟩, identified_init, ?_, ?_, ?_, .nil, .nil, ?_⟩ <;>
    exact fun _ h => absurd h List.not_mem_nil

/-- In a run whose steps all take care, the responses are applied in the order of the posts. -/
theorem applied_in_order {hist : List (Page × Action)} {p : Page} (h : Run step init hist p)
    (hcareful : ∀ e ∈ hist, Careful e.1 e.2) : p.applied.Pairwise (· < ·) :=
  (h.invariant_of (fun _ _ _ hp hc hs => hp.step hc hs) hcareful inOrder_init).increasing

/-- The script of the first response loads before the second response arrives. -/
def patient : List Action :=
  [.postAjax, .send, .postAjax, .success 1 ⟨[], ["app.js"]⟩, .settle, .send, .load 0,
    .success 2 ⟨[], []⟩]

theorem patient_runs : (exec step init patient).isSome = true := by decide

theorem applied_in_order_patient :
    (final step init patient patient_runs).applied = [0, 1] ∧
      (final step init patient patient_runs).applied.Pairwise (· < ·) :=
  ⟨by decide, applied_in_order (run_history (Option.some_get patient_runs).symm) (by decide)⟩

def scripted : List Action :=
  [.postAjax, .send, .postAjax, .success 1 ⟨[], ["app.js"]⟩, .settle, .send, .success 2 ⟨[], []⟩]

theorem scripted_runs : (exec step init scripted).isSome = true := by decide

/-- The response that names no file is applied before the earlier one. -/
theorem applied_out_of_order : ∃ hist p q, Run step init hist p ∧ hist.map Prod.snd = scripted ∧
    step p (.load 0) = some q ∧ q.applied = [1, 0] := by
  obtain ⟨hist, run, hlabels⟩ := run_final scripted_runs
  exact ⟨hist, _, _, run, hlabels, rfl, by decide⟩

end GoraddServe.AjaxResponses
