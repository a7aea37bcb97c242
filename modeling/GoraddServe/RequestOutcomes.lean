import GoraddServe.AjaxQueue

/-!
# The outcome of a request

The response of a request is handed to `opts.success` or `opts.error`, inside a `try` whose
`catch` calls `opts.error` too. A request that fails shows `readyState` 4 and status 0 before its
`error` or `timeout` event, and each of the two handlers reports it. What `JSON.parse` gives is a
parameter, and so is when a callback throws.
-/
namespace GoraddServe.RequestOutcomes
open LabelledRuns AjaxQueue

/-- What a request shows when `readystatechange` is fired. -/
structure Response where
  readyState : ℕ
  status : ℕ
  statusText : String
  response : String
  deriving DecidableEq

/-- What the browser delivers for a request. -/
inductive Event where
  | readystatechange (r : Response)
  | progress
  | error
  | timeout
  | loadend
  deriving DecidableEq

/-- The second argument of `opts.error`. -/
inductive ErrorArg (Err : Type) where
  | text (message : String)
  | status (status : ℕ)
  | thrown (err : Err)
  | undefined
  deriving DecidableEq

inductive Call (Json Err : Type) where
  | success (json : Json)
  | error (result : String) (err : ErrorArg Err)
  deriving DecidableEq

/-- The callbacks, given by what they throw. -/
structure Opts (Json Err : Type) where
  success : Json → Except Err Unit
  error : String → ErrorArg Err → Except Err Unit

variable {Json Err : Type}

/-- Code that may throw and records the callbacks it calls. -/
abbrev HandlerM (Json Err α : Type) := ExceptT Err (StateM (List (Call Json Err))) α

namespace Opts

variable (opts : Opts Json Err)

def callSuccess (json : Json) : HandlerM Json Err Unit := do
  modify (· ++ [.success json])
  liftExcept (opts.success json)

def callError (result : String) (err : ErrorArg Err) : HandlerM Json Err Unit := do
  modify (· ++ [.error result err])
  liftExcept (opts.error result err)

/-- The body of the `try`. -/
def report (parse : String → Except Err Json) (r : Response) : HandlerM Json Err Unit := do
  if r.response.toList.head? ≠ some '\x7b' then
    opts.callError r.response (.text "Json response is not an object.")
  else
    opts.callSuccess (← liftExcept (parse r.response))

/-- `onreadystatechange` up to the deletion of the request. -/
def onreadystatechange (parse : String → Except Err Json) (r : Response) :
    HandlerM Json Err Unit := do
  if r.readyState = 4 then
    if r.status = 200 then
      try
        opts.report parse r
      catch err =>
        opts.callError r.response (.thrown err)
    else
      opts.callError ("An ajax error occurred: " ++ r.statusText) (.status r.status)

def onerror : HandlerM Json Err Unit := opts.callError "An error occurred" .undefined

def ontimeout : HandlerM Json Err Unit :=
  opts.callError "The server did not respond in time" .undefined

end Opts

/-- A request as the page knows it: what it showed with `readyState` 4, whether its `error` or
`timeout` event was fired, whether `loadend` was, and the callbacks that were called. -/
structure Xhr (Json Err : Type) where
  shown : Option Response
  failed : Bool
  ended : Bool
  calls : List (Call Json Err)

namespace Xhr

variable (x : Xhr Json Err)

/-- The events that can be fired next. Status 0 is that of a failed request. -/
def Fires : Event → Prop
  | .readystatechange _ => x.shown = none
  | .progress => x.ended = false
  | .error | .timeout =>
    x.shown.map Response.status = some 0 ∧ x.failed = false ∧ x.ended = false
  | .loadend => x.shown.isSome = true ∧ x.ended = false

instance : DecidablePred x.Fires
  | .readystatechange _ => inferInstanceAs (Decidable (x.shown = none))
  | .progress => inferInstanceAs (Decidable (_ = _))
  | .error | .timeout => inferInstanceAs (Decidable (_ ∧ _ ∧ _))
  | .loadend => inferInstanceAs (Decidable (_ ∧ _))

def mark : Event → Xhr Json Err
  | .readystatechange r => if r.readyState = 4 then { x with shown := some r } else x
  | .error | .timeout => { x with failed := true }
  | .loadend => { x with ended := true }
  | .progress => x

end Xhr

/-- The handler of an event. Those of `progress` and `loadend` trigger an event of the form and
call no callback. -/
def handle (opts : Opts Json Err) (parse : String → Except Err Json) :
    Event → HandlerM Json Err Unit
  | .readystatechange r => opts.onreadystatechange parse r
  | .error => opts.onerror
  | .timeout => opts.ontimeout
  | .progress | .loadend => pure ()

/-- What a handler has thrown, and the callbacks called so far. -/
def called (opts : Opts Json Err) (parse : String → Except Err Json) (calls : List (Call Json Err))
    (ev : Event) : Except Err Unit × List (Call Json Err) := (handle opts parse ev).run.run calls

/-- An event is fired and its handler is called. -/
def Xhr.step (opts : Opts Json Err) (parse : String → Except Err Json) (x : Xhr Json Err)
    (ev : Event) : Option (Xhr Json Err) :=
  if x.Fires ev then some { x.mark ev with calls := (called opts parse x.calls ev).2 } else none

/-- The queue and its requests, by their ids. -/
structure Shim (Json Err : Type) where
  queue : State
  requests : ℕ → Xhr Json Err

def init : Shim Json Err := ⟨AjaxQueue.init, fun _ => ⟨none, false, false, []⟩⟩

inductive Action where
  | enqueue (async : Bool)
  | send
  | event (ajaxID : ℕ) (ev : Event)
  | settle
  | finish
  deriving DecidableEq

/-- What the queue does in the handler of an event. An error that is not caught ends it before
the request is deleted. -/
def receive (queue : State) (ajaxID : ℕ) (ev : Event) (result : Except Err Unit) : Option State :=
  match ev with
  | .readystatechange ⟨4, _, _, _⟩ =>
    match result with
    | .ok () => queue.complete ajaxID
    | .error _ => (queue.complete ajaxID).map ({ · with handler := none })
  | _ => if queue.AtEventLoop ∧ 0 < ajaxID ∧ ajaxID ≤ queue.idCounter then some queue else none

def step (opts : ℕ → Opts Json Err) (parse : String → Except Err Json) (s : Shim Json Err) :
    Action → Option (Shim Json Err)
  | .enqueue async => some { s with queue := s.queue.enqueue async }
  | .send => s.queue.send.map ({ s with queue := · })
  | .event ajaxID ev => do
    let x ← Xhr.step (opts ajaxID) parse (s.requests ajaxID) ev
    let queue ← receive s.queue ajaxID ev
      (called (opts ajaxID) parse (s.requests ajaxID).calls ev).1
    some ⟨queue, Function.update s.requests ajaxID x⟩
  | .settle => s.queue.settle.map ({ s with queue := · })
  | .finish => s.queue.finish.map ({ s with queue := · })

/-- Exactly one callback is called, and once, when all events of the request have been fired. -/
structure OneOutcome (x : Xhr Json Err) : Prop where
  atMostOne : x.calls.length ≤ 1
  one : x.ended = true → x.calls.length = 1

/-- The callback that is called inside the `try` does not throw. -/
def Returns (opts : Opts Json Err) (parse : String → Except Err Json) (r : Response) : Prop :=
  if r.response.toList.head? ≠ some '\x7b' then
    opts.error r.response (.text "Json response is not an object.") = .ok ()
  else ∀ json, parse r.response = .ok json → opts.success json = .ok ()

/-- The request does not fail, and the callback that its response is handed to returns. -/
structure Heard (opts : Opts Json Err) (parse : String → Except Err Json) (x : Xhr Json Err) :
    Prop where
  answered : x.failed = false
  returns : ∀ r, x.shown = some r → r.status = 200 → Returns opts parse r

section Handlers

variable {opts : Opts Json Err} {parse : String → Except Err Json} {r : Response}
  {calls : List (Call Json Err)}

theorem run_callError (result : String) (err : ErrorArg Err) :
    (opts.callError result err).run.run calls =
      (opts.error result err, calls ++ [.error result err]) := by
  unfold Opts.callError
  cases h : opts.error result err with
  | error thrown => rfl
  | ok => rfl

theorem run_callSuccess (json : Json) :
    (opts.callSuccess json).run.run calls = (opts.success json, calls ++ [.success json]) := by
  unfold Opts.callSuccess
  cases h : opts.success json with
  | error thrown => rfl
  | ok => rfl

theorem run_tryCatch_ok {m : HandlerM Json Err Unit} {catchErr : Err → HandlerM Json Err Unit}
    {calls' : List (Call Json Err)} (h : m.run.run calls = (.ok (), calls')) :
    (tryCatch m catchErr).run.run calls = (.ok (), calls') := by
  have hm : StateT.run m calls = (.ok (), calls') := h
  simp only [tryCatch, tryCatchThe, MonadExceptOf.tryCatch, ExceptT.tryCatch, ExceptT.run_mk,
    StateT.run_bind, hm]
  rfl

theorem run_tryCatch_error {m : HandlerM Json Err Unit} {catchErr : Err → HandlerM Json Err Unit}
    {err : Err} {calls' : List (Call Json Err)} (h : m.run.run calls = (.error err, calls')) :
    (tryCatch m catchErr).run.run calls = (catchErr err).run.run calls' := by
  have hm : StateT.run m calls = (.error err, calls') := h
  simp only [tryCatch, tryCatchThe, MonadExceptOf.tryCatch, ExceptT.tryCatch, ExceptT.run_mk,
    StateT.run_bind, hm]
  rfl

/-- The callback that the body of the `try` calls returns or throws, or none is called. -/
theorem run_report :
    (∃ call, (opts.report parse r).run.run calls = (.ok (), calls ++ [call]) ∧
      Returns opts parse r) ∨
    (∃ call err, (opts.report parse r).run.run calls = (.error err, calls ++ [call]) ∧
      ¬Returns opts parse r) ∨
    (∃ err, (opts.report parse r).run.run calls = (.error err, calls) ∧ Returns opts parse r) := by
  unfold Opts.report Returns
  split
  · cases herror : opts.error r.response (.text "Json response is not an object.") with
    | ok => exact .inl ⟨_, (run_callError _ _).trans (by rw [herror]), rfl⟩
    | error err =>
      refine .inr (.inl ⟨_, err, (run_callError _ _).trans (by rw [herror]), fun h => ?_⟩)
      cases h
  · cases hparse : parse r.response with
    | error err => exact .inr (.inr ⟨err, rfl, fun _ h => by cases h⟩)
    | ok json =>
      cases hsuccess : opts.success json with
      | ok =>
        refine .inl ⟨_, (run_callSuccess json).trans (by rw [hsuccess]), fun json' hjson' => ?_⟩
        exact (Except.ok.inj hjson') ▸ hsuccess
      | error err =>
        refine .inr (.inl ⟨_, err, (run_callSuccess json).trans (by rw [hsuccess]), fun h => ?_⟩)
        cases (h json rfl).symm.trans hsuccess

/-- A response with `readyState` 4 is reported, and once exactly when the callback inside the
`try` does not throw. -/
theorem called_of_readyState (h : r.readyState = 4) : ∃ reports,
    (called opts parse calls (.readystatechange r)).2 = calls ++ reports ∧ 1 ≤ reports.length ∧
      (reports.length = 1 ↔ (r.status = 200 → Returns opts parse r)) := by
  unfold called handle Opts.onreadystatechange
  dsimp only
  rw [if_pos h]
  by_cases hstatus : r.status = 200
  · rw [if_pos hstatus]
    rcases @run_report _ _ opts parse r calls with
      ⟨call, hrun, hreturns⟩ | ⟨call, err, hrun, hreturns⟩ | ⟨err, hrun, hreturns⟩
    · refine ⟨[call], by rw [run_tryCatch_ok hrun], Nat.le_refl 1, ?_⟩
      exact ⟨fun _ _ => hreturns, fun _ => rfl⟩
    · refine ⟨[call, .error r.response (.thrown err)], ?_, Nat.le_succ 1, ?_⟩
      · rw [run_tryCatch_error hrun, run_callError, List.append_assoc]
        rfl
      · exact ⟨fun hlength => by simp at hlength, fun himp => absurd (himp hstatus) hreturns⟩
    · refine ⟨[.error r.response (.thrown err)], ?_, Nat.le_refl 1, ?_⟩
      · rw [run_tryCatch_error hrun, run_callError]
      · exact ⟨fun _ _ => hreturns, fun _ => rfl⟩
  · rw [if_neg hstatus]
    refine ⟨_, congrArg Prod.snd (run_callError _ _), Nat.le_refl 1, ?_⟩
    exact ⟨fun _ h => absurd h hstatus, fun _ => rfl⟩

theorem called_error : (called opts parse calls .error).2 =
    calls ++ [.error "An error occurred" .undefined] :=
  congrArg Prod.snd (run_callError _ _)

theorem called_timeout : (called opts parse calls .timeout).2 =
    calls ++ [.error "The server did not respond in time" .undefined] :=
  congrArg Prod.snd (run_callError _ _)

theorem called_of_not_readyState (h : r.readyState ≠ 4) :
    (called opts parse calls (.readystatechange r)).2 = calls := by
  unfold called handle Opts.onreadystatechange
  dsimp only
  rw [if_neg h]
  rfl

end Handlers

/-- As many calls as reports of the response, and one more when the request has failed. -/
inductive Told (opts : Opts Json Err) (parse : String → Except Err Json) (x : Xhr Json Err) :
    Prop where
  | waiting (hshown : x.shown = none) (hfailed : x.failed = false) (hended : x.ended = false)
      (hcalls : x.calls = [])
  | shown {r : Response} {reports : ℕ} (hshown : x.shown = some r) (hreports : 1 ≤ reports)
      (hone : reports = 1 ↔ (r.status = 200 → Returns opts parse r))
      (hcalls : x.calls.length = reports + if x.failed then 1 else 0)

section OneRequest

variable {opts : Opts Json Err} {parse : String → Except Err Json} {x y : Xhr Json Err}

theorem Told.readystatechange (hx : Told opts parse x) {r : Response} (hnone : x.shown = none) :
    Told opts parse { x.mark (.readystatechange r) with
      calls := (called opts parse x.calls (.readystatechange r)).2 } := by
  cases hx with
  | waiting _ hfailed hended hcalls =>
    unfold Xhr.mark
    by_cases h : r.readyState = 4
    · obtain ⟨reports, heq, hreports, hone⟩ :=
        @called_of_readyState _ _ opts parse r x.calls h
      refine .shown ?_ hreports hone ?_
      · simp [h]
      · have hlength : (called opts parse x.calls (.readystatechange r)).2.length =
            reports.length := by
          rw [heq, hcalls]
          rfl
        simp [hlength, h, hfailed]
    · rw [called_of_not_readyState h]
      exact .waiting (by simp [h, hnone]) (by simp [h, hfailed]) (by simp [h, hended]) hcalls
  | shown hshown => cases hnone.symm.trans hshown

theorem Told.fail (hx : Told opts parse x) (hstatus : x.shown.map Response.status = some 0)
    (hfailed : x.failed = false) {call : Call Json Err} :
    Told opts parse { x with failed := true, calls := x.calls ++ [call] } := by
  cases hx with
  | waiting hshown => rw [hshown] at hstatus; cases hstatus
  | shown hshown hreports hone hcalls =>
    refine .shown hshown hreports hone ?_
    rw [hfailed] at hcalls
    rw [List.length_append, hcalls]
    rfl

theorem Told.step (hx : Told opts parse x) {ev : Event} (h : Xhr.step opts parse x ev = some y) :
    Told opts parse y := by
  unfold Xhr.step at h
  split at h
  · rename_i hfires
    obtain rfl := Option.some.inj h
    cases ev with
    | readystatechange r => exact hx.readystatechange hfires
    | progress => exact hx
    | error =>
      obtain ⟨hstatus, hfailed, -⟩ := hfires
      rw [called_error]
      exact hx.fail hstatus hfailed
    | timeout =>
      obtain ⟨hstatus, hfailed, -⟩ := hfires
      rw [called_timeout]
      exact hx.fail hstatus hfailed
    | loadend =>
      cases hx with
      | waiting hshown =>
        have hsome : x.shown.isSome = true := hfires.1
        rw [hshown] at hsome
        cases hsome
      | shown hshown hreports hone hcalls => exact .shown hshown hreports hone hcalls
  · cases h

theorem Told.outcome_iff (hx : Told opts parse x) : OneOutcome x ↔ Heard opts parse x := by
  cases hx with
  | waiting hshown hfailed hended hcalls =>
    refine iff_of_true ⟨by simp [hcalls], fun h => ?_⟩ ⟨hfailed, fun r hr => ?_⟩
    · cases hended.symm.trans h
    · cases hshown.symm.trans hr
  | @shown r reports hshown hreports hone hcalls =>
    constructor
    · intro h
      have hlength := h.atMostOne
      rw [hcalls] at hlength
      have hfailed : x.failed = false := by
        cases hf : x.failed with
        | false => rfl
        | true =>
          rw [hf, if_pos rfl] at hlength
          omega
      refine ⟨hfailed, fun r' hr' => ?_⟩
      obtain rfl := Option.some.inj (hshown.symm.trans hr')
      rw [hfailed, if_neg Bool.false_ne_true] at hlength
      exact hone.mp (by omega)
    · intro h
      have hreports : reports = 1 := hone.mpr (h.returns r hshown)
      have hlength : x.calls.length = 1 := by rw [hcalls, hreports, h.answered]; rfl
      exact ⟨Nat.le_of_eq hlength, fun _ => hlength⟩

end OneRequest

section Requests

variable {opts : ℕ → Opts Json Err} {parse : String → Except Err Json} {s t : Shim Json Err}
  {hist : List (Shim Json Err × Action)} {a : Action}

def label (ajaxID : ℕ) : Action → Option Event
  | .event ajaxID' ev => if ajaxID' = ajaxID then some ev else none
  | _ => none

/-- A step of the page is a step of one request, or leaves it as it is. -/
theorem request_step (ajaxID : ℕ) (h : step opts parse s a = some t) :
    StepOrStay (Xhr.step (opts ajaxID) parse) (s.requests ajaxID) (label ajaxID a)
      (t.requests ajaxID) := by
  cases a with
  | enqueue async => cases h; rfl
  | send => obtain ⟨queue, -, rfl⟩ := Option.map_eq_some_iff.mp h; rfl
  | settle => obtain ⟨queue, -, rfl⟩ := Option.map_eq_some_iff.mp h; rfl
  | finish => obtain ⟨queue, -, rfl⟩ := Option.map_eq_some_iff.mp h; rfl
  | event ajaxID' ev =>
    obtain ⟨x, hx, hqueue⟩ := Option.bind_eq_some_iff.mp h
    obtain ⟨queue, -, ht⟩ := Option.bind_eq_some_iff.mp hqueue
    cases ht
    unfold label
    by_cases hid : ajaxID' = ajaxID
    · subst hid
      simpa [StepOrStay] using hx
    · simp [StepOrStay, hid, Function.update_of_ne (Ne.symm hid)]

/-- A request has exactly one outcome exactly when it does not fail and the callback its response
is handed to does not throw. -/
theorem oneOutcome_iff (h : Run (step opts parse) init hist s) (ajaxID : ℕ) :
    OneOutcome (s.requests ajaxID) ↔ Heard (opts ajaxID) parse (s.requests ajaxID) := by
  have hrun : Run (Xhr.step (opts ajaxID) parse) _ _ (s.requests ajaxID) :=
    h.project (fun s => s.requests ajaxID) (fun _ a => label ajaxID a)
      (fun _ _ _ hstep => request_step ajaxID hstep)
  have htold : Told (opts ajaxID) parse (s.requests ajaxID) :=
    hrun.invariant (fun _ _ _ hx hstep => hx.step hstep) (.waiting rfl rfl rfl rfl)
  exact htold.outcome_iff

/-- `JSON.parse` on an empty object, and nothing else. -/
def parseEmpty (text : String) : Except String (List (String × String)) :=
  if text = "\x7b\x7d" then .ok [] else .error "SyntaxError"

def returning : Opts (List (String × String)) String := ⟨fun _ => .ok (), fun _ _ => .ok ()⟩

def throwing : Opts (List (String × String)) String :=
  ⟨fun _ => .error "TypeError", fun _ _ => .ok ()⟩

def emptyObject : Response := ⟨4, 200, "OK", "\x7b\x7d"⟩

def networkError : Response := ⟨4, 0, "", ""⟩

def answered : List Action :=
  [.enqueue false, .send, .event 1 (.readystatechange emptyObject), .settle, .finish,
    .event 1 .loadend]

/-- The first request fails, and the callback of the second one throws. -/
def reportedTwice : List Action :=
  [.enqueue false, .send, .event 1 (.readystatechange networkError), .settle, .finish,
    .event 1 .error, .event 1 .loadend,
    .enqueue false, .send, .event 2 (.readystatechange emptyObject), .settle, .finish,
    .event 2 .loadend]

def twoOpts (ajaxID : ℕ) : Opts (List (String × String)) String :=
  if ajaxID = 2 then throwing else returning

theorem answered_runs :
    (exec (step (fun _ => returning) parseEmpty) init answered).isSome = true := by decide

theorem oneOutcome_iff_answered : ∃ hist s, Run (step (fun _ => returning) parseEmpty) init hist s ∧
    hist.map Prod.snd = answered ∧ OneOutcome (s.requests 1) := by
  obtain ⟨hist, run, hlabels⟩ := run_final answered_runs
  refine ⟨hist, _, run, hlabels, (oneOutcome_iff run 1).mpr ⟨rfl, fun r _ _ => ?_⟩⟩
  unfold Returns
  split
  · rfl
  · exact fun _ _ => rfl

theorem reportedTwice_runs :
    (exec (step twoOpts parseEmpty) init reportedTwice).isSome = true := by decide

/-- `opts.error` is called twice for the failure, and after `opts.success` for the other one. -/
theorem outcomes_reported_twice : ∃ hist s, Run (step twoOpts parseEmpty) init hist s ∧
    hist.map Prod.snd = reportedTwice ∧
    (s.requests 1).calls = [.error "An ajax error occurred: " (.status 0),
      .error "An error occurred" .undefined] ∧
    (s.requests 2).calls = [.success [], .error "\x7b\x7d" (.thrown "TypeError")] ∧
    ¬OneOutcome (s.requests 1) ∧ ¬OneOutcome (s.requests 2) := by
  obtain ⟨hist, run, hlabels⟩ := run_final reportedTwice_runs
  refine ⟨hist, _, run, hlabels, by decide, by decide, fun h => ?_, fun h => ?_⟩
  · exact absurd h.atMostOne (by decide)
  · exact absurd h.atMostOne (by decide)

end Requests

end GoraddServe.RequestOutcomes
