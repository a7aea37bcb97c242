import GoraddServe.LabelledRuns
import Mathlib.Data.List.Nodup

/-!
# The ajax queue

`goradd.ajaxq` keeps the functions that wait in `_q` and the requests that run in
`_currentRequests`. What the browser and the page may do is a label: a function is put into
the queue, at any moment and also by a function of the queue while it builds its request; such
a function returns and its request is sent; a request completes and its callbacks run; they
return and the rest of `onreadystatechange` is done.
-/
namespace GoraddServe.AjaxQueue
open LabelledRuns

/-- A call of a function that `_do1` waits for. Functions are told apart by a number that
counts the calls of `enqueue`. -/
structure Call where
  f : ℕ
  async : Bool
  deriving DecidableEq

/-- An entry of `_currentRequests`, with the call its options come from. -/
structure Request where
  ajaxID : ℕ
  call : Call
  deriving DecidableEq

/-- What `onreadystatechange` waits for: `opts.success` or `opts.error` of a request, or the
handlers of `ajaxQueueComplete`. -/
inductive Handler where
  | callback (ajaxID : ℕ)
  | queueComplete
  deriving DecidableEq

/-- The variables of the queue, the calls that have not returned (`building` has the innermost
first), and a record of the functions that were put into the queue and of those taken out and
called. -/
structure State where
  q : List ℕ
  currentRequests : List Request
  idCounter : ℕ
  building : List Call
  handler : Option Handler
  count : ℕ
  enqueued : List ℕ
  called : List ℕ
  deriving DecidableEq

def init : State := ⟨[], [], 0, [], none, 0, [], []⟩

namespace State

variable (s : State)

def isRunning : Bool := !s.currentRequests.isEmpty

/-- `_do1` up to the call of its function. -/
def do1 (call : Call) : State := { s with building := call :: s.building }

def dequeue : State :=
  match s.q with
  | [] => s
  | f :: q => { s with q, called := s.called ++ [f] }.do1 ⟨f, false⟩

def push : State :=
  { s with count := s.count + 1, q := s.q ++ [s.count], enqueued := s.enqueued ++ [s.count] }

def enqueue (async : Bool) : State :=
  if !async then
    let wasRunning := s.isRunning
    let s := s.push
    if !wasRunning then s.dequeue else s
  else { s with count := s.count + 1 }.do1 ⟨s.count, true⟩

/-- `_do1` after its function has returned. -/
def send : Option State :=
  match s.building with
  | [] => none
  | call :: building =>
    let ajaxID := s.idCounter + 1
    some { s with building, idCounter := ajaxID,
                  currentRequests := s.currentRequests ++ [⟨ajaxID, call⟩] }

/-- Control is in the event loop, or in code outside the queue that the event loop has
called. -/
def AtEventLoop : Prop := s.building = [] ∧ s.handler = none

instance : Decidable s.AtEventLoop := inferInstanceAs (Decidable (_ ∧ _))

/-- `onreadystatechange` up to the callback of the request. -/
def complete (ajaxID : ℕ) : Option State :=
  if s.AtEventLoop ∧ ajaxID ∈ s.currentRequests.map Request.ajaxID then
    some { s with handler := some (.callback ajaxID) }
  else none

/-- The callback has returned, and the request is deleted. -/
def delete (ajaxID : ℕ) : State :=
  { s with handler := none, currentRequests := s.currentRequests.filter (·.ajaxID ≠ ajaxID) }

/-- `onreadystatechange` after the callback, up to the end or to the handlers of
`ajaxQueueComplete`. -/
def settle : Option State :=
  match s.building, s.handler with
  | [], some (.callback ajaxID) =>
    let s := s.delete ajaxID
    if s.q.length = 0 ∧ !s.isRunning then some { s with handler := some .queueComplete }
    else some s.dequeue
  | _, _ => none

/-- `onreadystatechange` after the handlers of `ajaxQueueComplete`. -/
def finish : Option State :=
  match s.building, s.handler with
  | [], some .queueComplete => some { s with handler := none }.dequeue
  | _, _ => none

end State

inductive Action where
  | enqueue (async : Bool)
  | send
  | complete (ajaxID : ℕ)
  | settle
  | finish
  deriving DecidableEq

def step (s : State) : Action → Option State
  | .enqueue async => some (s.enqueue async)
  | .send => s.send
  | .complete ajaxID => s.complete ajaxID
  | .settle => s.settle
  | .finish => s.finish

section Effects

variable {s t : State} {a : Action}

theorem isRunning_eq_false : s.isRunning = false ↔ s.currentRequests = [] := by
  simp [State.isRunning]

theorem isRunning_eq_true : s.isRunning = true ↔ s.currentRequests ≠ [] := by
  simp [State.isRunning]

theorem dequeue_nil (h : s.q = []) : s.dequeue = s := by
  simp [State.dequeue, h]

theorem dequeue_cons {f : ℕ} {q : List ℕ} (h : s.q = f :: q) :
    s.dequeue = { s with q, called := s.called ++ [f],
                         building := ⟨f, false⟩ :: s.building } := by
  simp [State.dequeue, State.do1, h]

/-- The ways in which a step can go. -/
inductive Effect (s : State) : Action → State → Prop where
  | push (hrun : s.currentRequests ≠ []) : Effect s (.enqueue false) s.push
  | start (hrun : s.currentRequests = []) : Effect s (.enqueue false) s.push.dequeue
  | async : Effect s (.enqueue true)
      { s with count := s.count + 1, building := ⟨s.count, true⟩ :: s.building }
  | send {call : Call} {building : List Call} (hcall : s.building = call :: building) :
      Effect s .send
        { s with building, idCounter := s.idCounter + 1,
                 currentRequests := s.currentRequests ++ [⟨s.idCounter + 1, call⟩] }
  | complete {r : Request} (hloop : s.AtEventLoop) (hr : r ∈ s.currentRequests) :
      Effect s (.complete r.ajaxID) { s with handler := some (.callback r.ajaxID) }
  | last {ajaxID : ℕ} (hbuilding : s.building = []) (hhandler : s.handler = some (.callback ajaxID))
      (hq : s.q = []) (hrun : (s.delete ajaxID).currentRequests = []) :
      Effect s .settle { s.delete ajaxID with handler := some .queueComplete }
  | settle {ajaxID : ℕ} (hbuilding : s.building = [])
      (hhandler : s.handler = some (.callback ajaxID))
      (hmore : s.q = [] → (s.delete ajaxID).currentRequests ≠ []) :
      Effect s .settle (s.delete ajaxID).dequeue
  | finish (hbuilding : s.building = []) (hhandler : s.handler = some .queueComplete) :
      Effect s .finish { s with handler := none }.dequeue

theorem effect_of_step (h : step s a = some t) : Effect s a t := by
  cases a with
  | enqueue async =>
    obtain rfl : s.enqueue async = t := Option.some.inj h
    cases async with
    | true => exact .async
    | false =>
      by_cases hrun : s.currentRequests = []
      · have henqueue : s.enqueue false = s.push.dequeue := by
          simp [State.enqueue, isRunning_eq_false.mpr hrun]
        exact henqueue ▸ .start hrun
      · have henqueue : s.enqueue false = s.push := by
          simp [State.enqueue, isRunning_eq_true.mpr hrun]
        exact henqueue ▸ .push hrun
  | send =>
    change s.send = some t at h
    unfold State.send at h
    split at h
    · cases h
    · rename_i call building hcall
      cases h
      exact .send hcall
  | complete ajaxID =>
    change s.complete ajaxID = some t at h
    unfold State.complete at h
    split at h
    · rename_i henabled
      obtain ⟨hloop, hmem⟩ := henabled
      obtain ⟨r, hr, rfl⟩ := List.mem_map.mp hmem
      cases h
      exact .complete hloop hr
    · cases h
  | settle =>
    change s.settle = some t at h
    unfold State.settle at h
    split at h
    · rename_i ajaxID hbuilding hhandler
      dsimp only at h
      split at h
      · rename_i hlast
        obtain ⟨hq, hrun⟩ := hlast
        cases h
        exact .last hbuilding hhandler (List.length_eq_zero_iff.mp hq)
          (isRunning_eq_false.mp (by simpa using hrun))
      · rename_i hmore
        cases h
        refine .settle hbuilding hhandler fun hq hrun => hmore ⟨?_, ?_⟩
        · exact List.length_eq_zero_iff.mpr hq
        · rw [isRunning_eq_false.mpr hrun]
          rfl
    · cases h
  | finish =>
    change s.finish = some t at h
    unfold State.finish at h
    split at h
    · rename_i hbuilding hhandler
      cases h
      exact .finish hbuilding hhandler
    · cases h

end Effects

/-- The running requests have different ids, and a callback is that of one of them. -/
structure Identified (s : State) : Prop where
  increasing : (s.currentRequests.map Request.ajaxID).Pairwise (· < ·)
  counted : ∀ r ∈ s.currentRequests, r.ajaxID ≤ s.idCounter
  handled : ∀ ajaxID, s.handler = some (.callback ajaxID) →
    ∃ r ∈ s.currentRequests, r.ajaxID = ajaxID

section Ids

variable {s t : State} {a : Action}

theorem Identified.dequeue (hs : Identified s) : Identified s.dequeue := by
  cases hq : s.q with
  | nil => rwa [dequeue_nil hq]
  | cons f q =>
    rw [dequeue_cons hq]
    exact ⟨hs.increasing, hs.counted, hs.handled⟩

theorem Identified.delete (hs : Identified s) (ajaxID : ℕ) : Identified (s.delete ajaxID) := by
  refine ⟨?_, fun r hr => hs.counted r (List.mem_of_mem_filter hr), fun _ h => by cases h⟩
  exact hs.increasing.sublist (List.filter_sublist.map _)

theorem Identified.step (hs : Identified s) (h : step s a = some t) : Identified t := by
  cases effect_of_step h with
  | push | async => exact ⟨hs.increasing, hs.counted, hs.handled⟩
  | start =>
    have hpush : Identified s.push := ⟨hs.increasing, hs.counted, hs.handled⟩
    exact hpush.dequeue
  | send =>
    refine ⟨?_, ?_, ?_⟩
    · rw [List.map_append, List.pairwise_append]
      refine ⟨hs.increasing, List.pairwise_singleton _ _, ?_⟩
      intro m hm n hn
      obtain ⟨r, hr, rfl⟩ := List.mem_map.mp hm
      exact List.mem_singleton.mp hn ▸ Nat.lt_succ_of_le (hs.counted r hr)
    · intro r hr
      rcases List.mem_append.mp hr with hr | hr
      · exact Nat.le_succ_of_le (hs.counted r hr)
      · obtain rfl := List.mem_singleton.mp hr
        exact Nat.le_refl _
    · intro ajaxID hh
      obtain ⟨r, hr, hid⟩ := hs.handled ajaxID hh
      exact ⟨r, List.mem_append_left _ hr, hid⟩
  | @complete r _ hr =>
    refine ⟨hs.increasing, hs.counted, fun ajaxID hh => ⟨r, hr, ?_⟩⟩
    cases hh
    rfl
  | @last ajaxID =>
    exact ⟨(hs.delete ajaxID).increasing, (hs.delete ajaxID).counted, fun _ h => by cases h⟩
  | settle => exact (hs.delete _).dequeue
  | finish =>
    have hfinish : Identified { s with handler := none } :=
      ⟨hs.increasing, hs.counted, fun _ h => by cases h⟩
    exact hfinish.dequeue

theorem idCounter_dequeue (s : State) : s.dequeue.idCounter = s.idCounter := by
  cases hq : s.q with
  | nil => rw [dequeue_nil hq]
  | cons f q => rw [dequeue_cons hq]

theorem handler_dequeue (s : State) : s.dequeue.handler = s.handler := by
  cases hq : s.q with
  | nil => rw [dequeue_nil hq]
  | cons f q => rw [dequeue_cons hq]

theorem idCounter_of_step (h : step s a = some t) :
    t.idCounter = if a = .send then s.idCounter + 1 else s.idCounter := by
  cases effect_of_step h with
  | push | async | send | complete | last => rfl
  | start => exact idCounter_dequeue s.push
  | settle => exact idCounter_dequeue (s.delete _)
  | finish => exact idCounter_dequeue { s with handler := none }

theorem identified_init : Identified init :=
  ⟨.nil, fun _ hr => absurd hr List.not_mem_nil, fun _ h => by cases h⟩

end Ids

end GoraddServe.AjaxQueue
