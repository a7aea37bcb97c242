import GoraddServe.AjaxQueue
import GoraddServe.GoMaps
import GoraddServe.JsValues

/-!
# The refresh list

`goradd.refresh` and the messages of watched channels push the ids of controls onto `_refresh`.
The parameters of a post refer to that list, and it is read when the request is built. Nothing
takes an id out of it again: `_getAjaxData` clears the other records of what is to be sent, but
not this one.
-/
namespace GoraddServe.RefreshList
open LabelledRuns GoMaps JsValues AjaxQueue

/-- A request that was sent, with the list in its parameters and how many ids had been pushed when
it was built. -/
structure Sent where
  ajaxID : ℕ
  refresh : List String
  pushes : ℕ
  deriving DecidableEq

/-- The variables of the script; `timer` tells whether the timer `goradd.update` is set. The log
has every id that was pushed, in order. -/
structure Shim where
  refresh : List String
  watchers : GoMap String (List String)
  blockEvents : Bool
  timer : Bool
  queue : State
  log : List String
  sent : List Sent
  succeeded : List ℕ

def init : Shim := ⟨[], ∅, false, false, AjaxQueue.init, [], [], []⟩

def push (s : Shim) (id : String) : Shim :=
  { s with refresh := s.refresh ++ [id], log := s.log ++ [id] }

/-- `throttle` sets the timer unless it is set already; how long it takes is not modelled. -/
def updateForm (s : Shim) : Shim := { s with timer := true }

def refresh (s : Shim) (id : String) : Shim := updateForm (push s id)

/-- Under an inherited name `_watchers` has no array, and `goradd.contains` throws: that is `none`,
and nothing is changed then. -/
def addWatcher (s : Shim) (id channel : String) : Option Shim :=
  if channel ∈ inherited then none
  else
    match s.watchers.get channel with
    | none => some { s with watchers := s.watchers.set channel [id] }
    | some ids =>
      if id ∈ ids then some s
      else some { s with watchers := s.watchers.set channel (ids ++ [id]) }

/-- The controls of the page are those with the ids `controls`. What is inherited has nothing that
`goradd.each` visits. -/
def processWatcherMessage (controls : List String) (s : Shim) (channel message : String) : Shim :=
  if message = "U" ∧ channel = "redraw" then updateForm s
  else if channel ∈ inherited then
    if s.refresh.length > 0 then updateForm s else s
  else
    match s.watchers.get channel with
    | none => s
    | some watchers =>
      let s := watchers.foldl (fun s id => if id ∈ controls then push s id else s) s
      if s.refresh.length > 0 then updateForm s else s

def postAjax (s : Shim) (async : Bool) : Shim :=
  if s.blockEvents then s else { s with queue := s.queue.enqueue async }

/-- The timer goes off when control is in the event loop. -/
def updateTimer (s : Shim) : Option Shim :=
  if s.queue.AtEventLoop ∧ s.timer then some (postAjax { s with timer := false } false) else none

/-- The function of a post, and what `_do1` does after it. The `refresh` of the parameters is
the list itself and not a copy. -/
def send (s : Shim) : Option Shim :=
  s.queue.send.map fun queue =>
    { s with queue, sent := s.sent ++ [⟨queue.idCounter, s.refresh, s.log.length⟩] }

def success (s : Shim) (ajaxID : ℕ) : Option Shim :=
  (s.queue.complete ajaxID).map fun queue =>
    { s with queue, succeeded := s.succeeded ++ [ajaxID], blockEvents := false }

inductive Action where
  | refresh (id : String)
  | addWatcher (id channel : String)
  | watcherMessage (controls : List String) (channel message : String)
  | updateForm
  | updateTimer
  | block (on : Bool)
  | postAjax (async : Bool)
  | send
  | success (ajaxID : ℕ)
  | error (ajaxID : ℕ)
  | settle
  | finish
  deriving DecidableEq

def step (s : Shim) : Action → Option Shim
  | .refresh id => some (refresh s id)
  | .addWatcher id channel => addWatcher s id channel
  | .watcherMessage controls channel message =>
    some (processWatcherMessage controls s channel message)
  | .updateForm => some (updateForm s)
  | .updateTimer => updateTimer s
  | .block on => some { s with blockEvents := on }
  | .postAjax async => some (postAjax s async)
  | .send => send s
  | .success ajaxID => success s ajaxID
  | .error ajaxID => (s.queue.complete ajaxID).map ({ s with queue := · })
  | .settle => s.queue.settle.map ({ s with queue := · })
  | .finish => s.queue.finish.map ({ s with queue := · })

/-- The id was pushed after the request was built, as one of the first `n` ids. -/
def PushedAgain (log : List String) (r : Sent) (n : ℕ) (id : String) : Prop :=
  id ∈ (log.take n).drop r.pushes

instance (log : List String) (r : Sent) (n : ℕ) (id : String) :
    Decidable (PushedAgain log r n id) :=
  inferInstanceAs (Decidable (id ∈ _))

/-- If the first request has succeeded, an id that both have was pushed between them. -/
def PushedBetween (s : Shim) (r r' : Sent) : Prop :=
  r.ajaxID ∈ s.succeeded → ∀ id ∈ r.refresh, id ∈ r'.refresh → PushedAgain s.log r r'.pushes id

/-- An id that is pushed is in the next request that is built, and one that was in a request that
succeeds is only in a later one when it was pushed again. -/
structure RequestedOnce (s : Shim) : Prop where
  next : ∀ before r after, s.sent = before ++ r :: after → ∀ n id, s.log[n]? = some id →
    n < r.pushes → (∀ r' ∈ before, r'.pushes ≤ n) → id ∈ r.refresh
  once : s.sent.Pairwise (PushedBetween s)

/-- When a request is built, every id in the list of one that has succeeded has been pushed again,
and when one succeeds, every id in its list had been pushed again before each request that was
built after it. -/
def Careful (s : Shim) : Action → Prop
  | .send => ∀ r ∈ s.sent, r.ajaxID ∈ s.succeeded →
      ∀ id ∈ r.refresh, PushedAgain s.log r s.log.length id
  | .success ajaxID => s.sent.Pairwise fun r r' => r.ajaxID = ajaxID →
      ∀ id ∈ r.refresh, PushedAgain s.log r r'.pushes id
  | _ => True

/-- The ids are pushed, and no request is sent or succeeds. -/
structure Pushes (s : Shim) (ids : List String) (t : Shim) : Prop where
  refresh : t.refresh = s.refresh ++ ids
  log : t.log = s.log ++ ids
  sent : t.sent = s.sent
  succeeded : t.succeeded = s.succeeded

/-- A step pushes some ids, sends a request with the whole list, or is the success of one. -/
inductive Effect (s t : Shim) : Action → Prop where
  | pushed {a : Action} {ids : List String} (hsend : a ≠ .send)
      (hsuccess : ∀ ajaxID, a ≠ .success ajaxID) (hpushes : Pushes s ids t) : Effect s t a
  | sent {ajaxID : ℕ} (hrefresh : t.refresh = s.refresh) (hlog : t.log = s.log)
      (hsent : t.sent = s.sent ++ [⟨ajaxID, s.refresh, s.log.length⟩])
      (hsucceeded : t.succeeded = s.succeeded) : Effect s t .send
  | succeeded {ajaxID : ℕ} (hrefresh : t.refresh = s.refresh) (hlog : t.log = s.log)
      (hsent : t.sent = s.sent) (hsucceeded : t.succeeded = s.succeeded ++ [ajaxID]) :
      Effect s t (.success ajaxID)

section Steps

variable {s t : Shim} {a : Action}

theorem pushes_nil (hrefresh : t.refresh = s.refresh) (hlog : t.log = s.log)
    (hsent : t.sent = s.sent) (hsucceeded : t.succeeded = s.succeeded) : Pushes s [] t :=
  ⟨by rw [hrefresh, List.append_nil], by rw [hlog, List.append_nil], hsent, hsucceeded⟩

theorem pushes_refl (s : Shim) : Pushes s [] s := pushes_nil rfl rfl rfl rfl

theorem pushes_push (s : Shim) (id : String) : Pushes s [id] (push s id) := ⟨rfl, rfl, rfl, rfl⟩

theorem Pushes.updateForm {ids : List String} (h : Pushes s ids t) : Pushes s ids (updateForm t) :=
  ⟨h.refresh, h.log, h.sent, h.succeeded⟩

theorem Pushes.trans {u : Shim} {ids ids' : List String} (h : Pushes s ids t)
    (h' : Pushes t ids' u) : Pushes s (ids ++ ids') u :=
  ⟨by rw [h'.refresh, h.refresh, List.append_assoc], by rw [h'.log, h.log, List.append_assoc],
    h'.sent.trans h.sent, h'.succeeded.trans h.succeeded⟩

theorem pushes_watchers (controls watchers : List String) (s : Shim) :
    Pushes s (watchers.filter (· ∈ controls))
      (watchers.foldl (fun s id => if id ∈ controls then push s id else s) s) := by
  induction watchers generalizing s with
  | nil => exact pushes_refl s
  | cons id watchers ih =>
    rw [List.foldl_cons]
    by_cases hid : id ∈ controls
    · rw [if_pos hid, List.filter_cons_of_pos (by simpa using hid)]
      exact (pushes_push s id).trans (ih (push s id))
    · rw [if_neg hid, List.filter_cons_of_neg (by simpa using hid)]
      exact ih s

theorem pushes_watcherMessage (controls : List String) (s : Shim) (channel message : String) :
    ∃ ids, Pushes s ids (processWatcherMessage controls s channel message) := by
  unfold processWatcherMessage
  split_ifs
  · exact ⟨[], (pushes_refl s).updateForm⟩
  · exact ⟨[], (pushes_refl s).updateForm⟩
  · exact ⟨[], pushes_refl s⟩
  · split
    · exact ⟨[], pushes_refl s⟩
    · rename_i watchers _
      have hpushes := pushes_watchers controls watchers s
      dsimp only
      split
      · exact ⟨_, hpushes.updateForm⟩
      · exact ⟨_, hpushes⟩

theorem addWatcher_eq_some {id channel : String} (h : addWatcher s id channel = some t) :
    channel ∉ inherited ∧ ∃ watchers, t = { s with watchers } ∧
      ∀ c, watchers.get c = if c = channel then
        some ((s.watchers.get channel).elim [id] fun ids => if id ∈ ids then ids else ids ++ [id])
      else s.watchers.get c := by
  unfold addWatcher at h
  split at h
  · cases h
  · rename_i hchannel
    refine ⟨hchannel, ?_⟩
    split at h
    · rename_i hnone
      cases h
      refine ⟨_, rfl, fun c => ?_⟩
      rw [GoMap.get_set, hnone, Option.elim_none]
    · rename_i ids hids
      rw [hids, Option.elim_some]
      split at h
      · rename_i hmem
        cases h
        refine ⟨_, rfl, fun c => ?_⟩
        rw [if_pos hmem]
        split
        · rename_i hc
          rw [hc, hids]
        · rfl
      · rename_i hmem
        cases h
        refine ⟨_, rfl, fun c => ?_⟩
        rw [if_neg hmem, GoMap.get_set]

theorem pushes_addWatcher {id channel : String} (h : addWatcher s id channel = some t) :
    Pushes s [] t := by
  obtain ⟨-, watchers, rfl, -⟩ := addWatcher_eq_some h
  exact pushes_nil rfl rfl rfl rfl

theorem pushes_postAjax (s : Shim) (async : Bool) : Pushes s [] (postAjax s async) := by
  unfold postAjax
  split
  · exact pushes_refl s
  · exact pushes_nil rfl rfl rfl rfl

theorem pushes_of_queue {queue : Option State} (h : queue.map ({ s with queue := · }) = some t) :
    Pushes s [] t := by
  obtain ⟨queue, -, rfl⟩ := Option.map_eq_some_iff.mp h
  exact pushes_nil rfl rfl rfl rfl

theorem effect_of_step (h : step s a = some t) : Effect s t a := by
  cases a with
  | refresh id =>
    cases h
    exact .pushed (by simp) (by simp) (pushes_push s id).updateForm
  | addWatcher id channel => exact .pushed (by simp) (by simp) (pushes_addWatcher h)
  | watcherMessage controls channel message =>
    cases h
    obtain ⟨ids, hpushes⟩ := pushes_watcherMessage controls s channel message
    exact .pushed (by simp) (by simp) hpushes
  | updateForm =>
    cases h
    exact .pushed (by simp) (by simp) (pushes_refl s).updateForm
  | updateTimer =>
    change updateTimer s = some t at h
    unfold updateTimer at h
    split at h
    · cases h
      have htimer : Pushes s [] { s with timer := false } := pushes_nil rfl rfl rfl rfl
      exact .pushed (by simp) (by simp) (htimer.trans (pushes_postAjax _ false))
    · cases h
  | block on =>
    cases h
    exact .pushed (by simp) (by simp) (pushes_nil rfl rfl rfl rfl)
  | postAjax async =>
    cases h
    exact .pushed (by simp) (by simp) (pushes_postAjax s async)
  | send =>
    obtain ⟨queue, -, rfl⟩ := Option.map_eq_some_iff.mp h
    exact .sent rfl rfl rfl rfl
  | success ajaxID =>
    obtain ⟨queue, -, rfl⟩ := Option.map_eq_some_iff.mp h
    exact .succeeded rfl rfl rfl rfl
  | error ajaxID => exact .pushed (by simp) (by simp) (pushes_of_queue h)
  | settle => exact .pushed (by simp) (by simp) (pushes_of_queue h)
  | finish => exact .pushed (by simp) (by simp) (pushes_of_queue h)

end Steps

/-- The list has every id that was ever pushed, and so has each request as far as it was built
after the push. -/
structure Recorded (s : Shim) : Prop where
  all : s.refresh = s.log
  built : ∀ r ∈ s.sent, r.refresh = s.log.take r.pushes ∧ r.pushes ≤ s.log.length
  ordered : s.sent.Pairwise fun r r' => r.pushes ≤ r'.pushes

section Lists

variable {s t : Shim} {a : Action} {r r' : Sent} {log ids : List String} {n : ℕ} {id : String}

theorem Recorded.step (hs : Recorded s) (h : step s a = some t) : Recorded t := by
  cases effect_of_step h with
  | @pushed _ ids _ _ hpushes =>
    refine ⟨by rw [hpushes.refresh, hpushes.log, hs.all], fun r hr => ?_, ?_⟩
    · obtain ⟨hrefresh, hle⟩ := hs.built r (hpushes.sent ▸ hr)
      rw [hpushes.log, List.take_append_of_le_length hle, List.length_append]
      exact ⟨hrefresh, by omega⟩
    · rw [hpushes.sent]
      exact hs.ordered
  | sent hrefresh hlog hsent _ =>
    refine ⟨by rw [hrefresh, hlog, hs.all], fun r hr => ?_, ?_⟩
    · rw [hlog]
      rcases List.mem_append.mp (hsent ▸ hr) with hr | hr
      · exact hs.built r hr
      · obtain rfl := List.mem_singleton.mp hr
        exact ⟨by rw [hs.all, List.take_length], Nat.le_refl _⟩
    · rw [hsent, List.pairwise_append]
      refine ⟨hs.ordered, List.pairwise_singleton _ _, fun r hr r' hr' => ?_⟩
      obtain rfl := List.mem_singleton.mp hr'
      exact (hs.built r hr).2
  | succeeded hrefresh hlog hsent _ =>
    exact ⟨by rw [hrefresh, hlog, hs.all], by rw [hlog, hsent]; exact hs.built,
      by rw [hsent]; exact hs.ordered⟩

theorem Recorded.next (hs : Recorded s) (hr : r ∈ s.sent) {n : ℕ} {id : String}
    (hid : s.log[n]? = some id) (hn : n < r.pushes) : id ∈ r.refresh := by
  rw [(hs.built r hr).1]
  exact List.mem_of_getElem? ((List.getElem?_take_of_lt hn).trans hid)

theorem Recorded.subset (hs : Recorded s) (hr : r ∈ s.sent) (hn : r.pushes ≤ n) :
    r.refresh ⊆ s.log.take n := by
  rw [(hs.built r hr).1]
  exact List.take_subset_take_left s.log hn

theorem pushedAgain_append (hn : n ≤ log.length) :
    PushedAgain (log ++ ids) r n id ↔ PushedAgain log r n id := by
  rw [PushedAgain, PushedAgain, List.take_append_of_le_length hn]

theorem careful_of_ne (hsend : a ≠ .send) (hsuccess : ∀ ajaxID, a ≠ .success ajaxID) :
    Careful s a := by
  cases a with
  | send => exact absurd rfl hsend
  | success ajaxID => exact absurd rfl (hsuccess ajaxID)
  | _ => trivial

theorem once_step (hs : Recorded s) (h : step s a = some t) :
    t.sent.Pairwise (PushedBetween t) ↔ s.sent.Pairwise (PushedBetween s) ∧ Careful s a := by
  cases effect_of_step h with
  | pushed hsend hsuccess hpushes =>
    rw [hpushes.sent, and_iff_left (careful_of_ne hsend hsuccess)]
    refine List.Pairwise.iff_of_mem fun {r r'} _ hr' => ?_
    rw [PushedBetween, PushedBetween, hpushes.succeeded, hpushes.log]
    simp only [pushedAgain_append (hs.built r' hr').2]
  | sent _ hlog hsent hsucceeded =>
    have hsame : PushedBetween t = PushedBetween s := by
      unfold PushedBetween
      rw [hlog, hsucceeded]
    rw [hsame, hsent, List.pairwise_append]
    constructor
    · rintro ⟨hpairwise, -, hnew⟩
      refine ⟨hpairwise, fun r hr hrsucceeded id hid => ?_⟩
      refine hnew r hr _ (List.mem_singleton_self _) hrsucceeded id hid ?_
      have hsubset := hs.subset hr (hs.built r hr).2
      rw [List.take_length, ← hs.all] at hsubset
      exact hsubset hid
    · rintro ⟨hpairwise, hcareful⟩
      refine ⟨hpairwise, List.pairwise_singleton _ _, fun r hr r' hr' => ?_⟩
      obtain rfl := List.mem_singleton.mp hr'
      exact fun hrsucceeded id hid _ => hcareful r hr hrsucceeded id hid
  | @succeeded ajaxID _ hlog hsent hsucceeded =>
    have hbetween : ∀ r r', PushedBetween t r r' ↔ PushedBetween s r r' ∧ (r.ajaxID = ajaxID →
        ∀ id ∈ r.refresh, id ∈ r'.refresh → PushedAgain s.log r r'.pushes id) := by
      intro r r'
      rw [PushedBetween, PushedBetween, hsucceeded, hlog, List.mem_append, List.mem_singleton,
        or_imp]
    rw [hsent, List.Pairwise.iff hbetween, List.pairwise_and_iff]
    refine and_congr_right fun _ => ?_
    -- a request that is built later has the whole list of the one before
    constructor
    · intro hpairwise
      refine (hs.ordered.and hpairwise).imp_of_mem fun {r r'} hr hr' h hr₁ id hid => ?_
      refine h.2 hr₁ id hid ?_
      rw [(hs.built r' hr').1]
      exact hs.subset hr h.1 hid
    · intro hcareful
      exact hcareful.imp fun h hr id hid _ => h hr id hid

end Lists

section Runs

variable {hist : List (Shim × Action)} {s : Shim}

theorem recorded_init : Recorded init :=
  ⟨rfl, fun _ hr => absurd hr List.not_mem_nil, List.Pairwise.nil⟩

theorem recorded_of_run (h : Run step init hist s) : Recorded s :=
  h.invariant (fun _ _ _ hs hstep => hs.step hstep) recorded_init

theorem once_of_run (h : Run step init hist s) :
    s.sent.Pairwise (PushedBetween s) ↔ ∀ e ∈ hist, Careful e.1 e.2 := by
  induction h with
  | start => simp [init]
  | next run taken ih =>
    rw [once_step (recorded_of_run run) taken, ih]
    simp [or_imp, forall_and]

/-- A refresh is requested once exactly when no request is built with an id of a request that has
succeeded by then, and none succeeds of whose ids a later one has been built, unless the id had
been pushed again in between. -/
theorem requestedOnce_iff (h : Run step init hist s) :
    RequestedOnce s ↔ ∀ e ∈ hist, Careful e.1 e.2 := by
  rw [← once_of_run h]
  refine ⟨RequestedOnce.once, fun honce => ⟨?_, honce⟩⟩
  intro before r after hsent n id hid hn _
  exact (recorded_of_run h).next (hsent ▸ List.mem_append_right _ List.mem_cons_self) hid hn

instance (s : Shim) (r r' : Sent) : Decidable (PushedBetween s r r') :=
  inferInstanceAs (Decidable (_ → ∀ id ∈ r.refresh, _))

instance (s : Shim) (a : Action) : Decidable (Careful s a) :=
  match a with
  | .send => inferInstanceAs (Decidable (∀ r ∈ s.sent, _))
  | .success _ => inferInstanceAs (Decidable (s.sent.Pairwise _))
  | .refresh _ | .addWatcher .. | .watcherMessage .. | .updateForm | .updateTimer | .block _
  | .postAjax _ | .error _ | .settle | .finish => .isTrue trivial

/-- A control is refreshed, and again when its channel gets a message. -/
def refreshedAgain : List Action :=
  [.addWatcher "list" "items", .refresh "list", .updateTimer, .send, .success 1, .settle, .finish,
    .watcherMessage ["list"] "items" "I", .updateTimer, .send]

/-- A control is refreshed, and another post is made. -/
def postedAgain : List Action :=
  [.refresh "list", .updateTimer, .send, .success 1, .settle, .finish, .postAjax false, .send]

/-- Two posts are under way at a time, and both have the control. -/
def overlapping : List Action :=
  [.refresh "list", .postAjax true, .send, .postAjax true, .send, .success 1, .settle, .success 2]

example : (exec step init overlapping).isSome = true ∧
    ¬∀ e ∈ history step init overlapping, Careful e.1 e.2 := by decide

theorem refreshedAgain_runs : (exec step init refreshedAgain).isSome = true := by decide

theorem requestedOnce_iff_refreshedAgain :
    RequestedOnce (final step init refreshedAgain refreshedAgain_runs) :=
  (requestedOnce_iff (run_history (Option.some_get refreshedAgain_runs).symm)).mpr (by decide)

theorem postedAgain_runs : (exec step init postedAgain).isSome = true := by decide

/-- The second post asks for the control again. -/
theorem postedAgain_refreshes_twice : ∃ hist s, Run step init hist s ∧
    hist.map Prod.snd = postedAgain ∧ s.log = ["list"] ∧
    s.sent.map Sent.refresh = [["list"], ["list"]] ∧ ¬RequestedOnce s := by
  obtain ⟨hist, run, hlabels⟩ := run_final postedAgain_runs
  refine ⟨hist, _, run, hlabels, by decide, by decide, fun h => ?_⟩
  exact absurd h.once (by decide)

end Runs

end GoraddServe.RefreshList
