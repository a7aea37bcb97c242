import Mathlib.Algebra.Order.Ring.Unbundled.Rat
import Mathlib.Data.List.Nodup
import Mathlib.Logic.Function.Basic

/-!
# Named timers

`_timers` keeps one entry for each name. The entry stays when its timer has fired or was
cleared, and is replaced when a timer is set again. The browser has a list of its own, of
the timers that will still fire. Times are the readings of `new Date().getTime()`.
-/
namespace GoraddServe.NamedTimers

/-- An entry of `_timers`. The browser tells its timers apart by a number. -/
structure Timer where
  i : ℚ
  d : ℚ
  p : Bool
  s : ℚ
  e : ℚ
  t : Option ℕ
  deriving DecidableEq

/-- A timer of the browser, with the name and the action that its callback has captured.
`every` is the delay of `setInterval`. -/
structure Live (K A : Type*) where
  number : ℕ
  id : K
  action : A
  due : ℚ
  every : Option ℚ
  deriving DecidableEq

/-- `_timers` and the timers of the browser. -/
structure Table (K A : Type*) where
  timers : K → Option Timer
  live : List (Live K A)
  count : ℕ

namespace Table

variable {K A : Type*} [DecidableEq K]

def empty : Table K A := ⟨fun _ => none, [], 0⟩

variable (s : Table K A) (id k : K) (action : A) (now : ℚ)

/-- The `t` of the entry at a name. -/
def handle : Option ℕ := (s.timers id).bind Timer.t

def hasTimer : Bool := (s.handle id).isSome

/-- An assignment to fields of `_timers[id]`. -/
def modifyTimer (f : Timer → Timer) : Table K A :=
  { s with timers := Function.update s.timers id ((s.timers id).map f) }

def clearTimer : Table K A :=
  if s.hasTimer id then
    { s with live := s.live.filter (some ·.number ≠ s.handle id) }.modifyTimer id
      ({ · with t := none })
  else s

def setTimer (intDelay : ℚ) (blnPeriodic : Bool) : Table K A :=
  let s := s.clearTimer id
  { timers := Function.update s.timers id
      (some ⟨now, intDelay, blnPeriodic, 0, 0, some s.count⟩)
    live := s.live ++
      [⟨s.count, id, action, now + intDelay, if blnPeriodic then some intDelay else none⟩]
    count := s.count + 1 }

/-- The callback of a timer up to the call of its action. The browser has dropped the timer
before, or has set the time of the next call. -/
def begin (l : Live K A) : Table K A :=
  match l.every with
  | some intDelay =>
    { s with live := s.live.map fun m =>
        if m.number = l.number then { m with due := now + intDelay } else m }
  | none =>
    ({ s with live := s.live.filter (·.number ≠ l.number) }.modifyTimer l.id
      ({ · with s := now })).clearTimer l.id

/-- The callback of a timer after its action has returned. -/
def finish (l : Live K A) : Table K A :=
  match l.every with
  | some _ => s
  | none => s.modifyTimer l.id ({ · with e := now })

/-- The delay that `throttle` computes from the entry it finds. -/
def throttleDelay (minInterval : ℚ) : ℚ :=
  let prevTime := match s.timers id with
    | some timer => if timer.e > 0 then timer.s else 0
    | none => 0
  max (minInterval - (now - prevTime)) 0

def throttle (minInterval : ℚ) : Table K A :=
  if s.hasTimer id then s
  else s.setTimer id action now (s.throttleDelay id now minInterval) false

section Entries

variable {s id k action now} {f : Timer → Timer} {intDelay : ℚ} {blnPeriodic : Bool} {l : Live K A}

@[simp] theorem timers_modifyTimer :
    (s.modifyTimer id f).timers k = if k = id then (s.timers id).map f else s.timers k := by
  simp [modifyTimer, Function.update_apply]

@[simp] theorem live_modifyTimer : (s.modifyTimer id f).live = s.live := rfl

@[simp] theorem count_modifyTimer : (s.modifyTimer id f).count = s.count := rfl

theorem handle_modifyTimer (hf : ∀ timer, (f timer).t = timer.t) :
    (s.modifyTimer id f).handle k = s.handle k := by
  by_cases hk : k = id
  · subst hk
    cases h : s.timers k <;> simp [handle, h, hf]
  · simp [handle, hk]

theorem clearTimer_eq : s.clearTimer id =
    { s with live := s.live.filter (some ·.number ≠ s.handle id) }.modifyTimer id
      ({ · with t := none }) := by
  unfold clearTimer
  split_ifs with h
  · rfl
  · have hnone : s.handle id = none := by simpa [hasTimer] using h
    have hkeep : (s.timers id).map (fun timer => { timer with t := none }) = s.timers id := by
      cases hs : s.timers id with
      | none => rfl
      | some timer =>
        have ht : timer.t = none := by simpa [handle, hs] using hnone
        cases timer
        simp_all
    simp [modifyTimer, hkeep, hnone]

@[simp] theorem timers_clearTimer : (s.clearTimer id).timers k =
    if k = id then (s.timers id).map fun timer => { timer with t := none } else s.timers k := by
  simp [clearTimer_eq]

@[simp] theorem live_clearTimer :
    (s.clearTimer id).live = s.live.filter (some ·.number ≠ s.handle id) := by
  simp [clearTimer_eq]

@[simp] theorem count_clearTimer : (s.clearTimer id).count = s.count := by
  simp [clearTimer_eq]

@[simp] theorem timers_setTimer : (s.setTimer id action now intDelay blnPeriodic).timers k =
    if k = id then some ⟨now, intDelay, blnPeriodic, 0, 0, some s.count⟩ else s.timers k := by
  by_cases hk : k = id
  · simp [setTimer, hk]
  · simp [setTimer, hk]

@[simp] theorem count_setTimer :
    (s.setTimer id action now intDelay blnPeriodic).count = s.count + 1 := by
  simp [setTimer]

theorem handle_clearTimer :
    (s.clearTimer id).handle k = if k = id then none else s.handle k := by
  by_cases hk : k = id
  · subst hk
    cases h : s.timers k <;> simp [handle, h]
  · simp [handle, hk]

theorem handle_setTimer : (s.setTimer id action now intDelay blnPeriodic).handle k =
    if k = id then some s.count else s.handle k := by
  by_cases hk : k = id
  · simp [setTimer, handle, hk]
  · simp [setTimer, handle, hk]

@[simp] theorem live_finish : (s.finish now l).live = s.live := by
  unfold finish
  split <;> rfl

end Entries

/-- The entries and the browser agree on which timers are live. -/
structure Linked (s : Table K A) : Prop where
  handle : ∀ l ∈ s.live, s.handle l.id = some l.number
  held : ∀ id n, s.handle id = some n → ∃ l ∈ s.live, l.id = id ∧ l.number = n
  fresh : ∀ l ∈ s.live, l.number < s.count
  nodup : (s.live.map Live.number).Nodup

namespace Linked

variable {s : Table K A} {id : K} {action : A} {now intDelay : ℚ} {blnPeriodic : Bool}
  {l m : Live K A}

omit [DecidableEq K] in
theorem empty : Linked (Table.empty : Table K A) where
  handle := by simp [Table.empty]
  held := by simp [Table.empty, Table.handle]
  fresh := by simp [Table.empty]
  nodup := by simp [Table.empty]

omit [DecidableEq K] in
theorem eq_of_number (h : s.Linked) (hl : l ∈ s.live) (hm : m ∈ s.live)
    (heq : l.number = m.number) : l = m :=
  List.inj_on_of_nodup_map h.nodup hl hm heq

omit [DecidableEq K] in
theorem eq_of_id (h : s.Linked) (hl : l ∈ s.live) (hm : m ∈ s.live) (heq : l.id = m.id) :
    l = m := by
  have hnumber := (h.handle l hl).symm.trans (heq ▸ h.handle m hm)
  exact h.eq_of_number hl hm (Option.some_inj.mp hnumber)

omit [DecidableEq K] in
theorem hasTimer_iff (h : s.Linked) : s.hasTimer id = true ↔ ∃ l ∈ s.live, l.id = id := by
  constructor
  · intro hhas
    obtain ⟨n, hn⟩ := Option.isSome_iff_exists.mp hhas
    obtain ⟨l, hl, hid, -⟩ := h.held id n hn
    exact ⟨l, hl, hid⟩
  · rintro ⟨l, hl, rfl⟩
    simp [hasTimer, h.handle l hl]

theorem mem_clearTimer (h : s.Linked) : l ∈ (s.clearTimer id).live ↔ l ∈ s.live ∧ l.id ≠ id := by
  simp only [live_clearTimer, List.mem_filter, decide_eq_true_eq]
  refine and_congr_right fun hl => not_congr ?_
  constructor
  · intro heq
    obtain ⟨m, hm, rfl, hnumber⟩ := h.held id l.number heq.symm
    rw [h.eq_of_number hl hm hnumber.symm]
  · rintro rfl
    exact (h.handle l hl).symm

theorem clearTimer (h : s.Linked) (id : K) : (s.clearTimer id).Linked where
  handle l hl := by
    obtain ⟨hl, hid⟩ := h.mem_clearTimer.mp hl
    simpa [handle_clearTimer, hid] using h.handle l hl
  held k n hk := by
    by_cases hid : k = id
    · simp [handle_clearTimer, hid] at hk
    · rw [handle_clearTimer, if_neg hid] at hk
      obtain ⟨l, hl, rfl, hn⟩ := h.held k n hk
      exact ⟨l, h.mem_clearTimer.mpr ⟨hl, hid⟩, rfl, hn⟩
  fresh l hl := by
    simpa using h.fresh l (h.mem_clearTimer.mp hl).1
  nodup := by
    rw [live_clearTimer]
    exact h.nodup.sublist (List.filter_sublist.map _)

theorem mem_setTimer (h : s.Linked) : l ∈ (s.setTimer id action now intDelay blnPeriodic).live ↔
    l ∈ s.live ∧ l.id ≠ id ∨
      l = ⟨s.count, id, action, now + intDelay, if blnPeriodic then some intDelay else none⟩ := by
  simp [Table.setTimer, ← h.mem_clearTimer]

theorem setTimer (h : s.Linked) (id : K) (action : A) (now intDelay : ℚ) (blnPeriodic : Bool) :
    (s.setTimer id action now intDelay blnPeriodic).Linked where
  handle l hl := by
    obtain ⟨hl, hid⟩ | rfl := h.mem_setTimer.mp hl
    · simpa [handle_setTimer, hid] using h.handle l hl
    · simp [handle_setTimer]
  held k n hk := by
    by_cases hid : k = id
    · rw [handle_setTimer, if_pos hid, Option.some_inj] at hk
      exact ⟨_, h.mem_setTimer.mpr (.inr rfl), hid.symm, hk⟩
    · rw [handle_setTimer, if_neg hid] at hk
      obtain ⟨l, hl, rfl, hn⟩ := h.held k n hk
      exact ⟨l, h.mem_setTimer.mpr (.inl ⟨hl, hid⟩), rfl, hn⟩
  fresh l hl := by
    obtain ⟨hl, -⟩ | rfl := h.mem_setTimer.mp hl
    · simpa using (h.fresh l hl).trans (Nat.lt_succ_self _)
    · simp
  nodup := by
    have hnew : s.count ∉ (s.clearTimer id).live.map Live.number := by
      intro hmem
      obtain ⟨l, hl, hnumber⟩ := List.mem_map.mp hmem
      exact (h.fresh l (h.mem_clearTimer.mp hl).1).ne hnumber
    rw [Table.setTimer, List.map_append, List.map_singleton, ← List.concat_eq_append,
      List.nodup_concat]
    exact ⟨by simpa using hnew, (h.clearTimer id).nodup⟩

theorem modifyTimer (h : s.Linked) (id : K) {f : Timer → Timer}
    (hf : ∀ timer, (f timer).t = timer.t) : (s.modifyTimer id f).Linked where
  handle l hl := (handle_modifyTimer hf).trans (h.handle l hl)
  held k n hk := h.held k n ((handle_modifyTimer hf).symm.trans hk)
  fresh := h.fresh
  nodup := h.nodup

omit [DecidableEq K] in
/-- The times of the browser's timers are not part of the agreement. -/
theorem mapLive (h : s.Linked) {g : Live K A → Live K A}
    (hg : ∀ m, (g m).number = m.number ∧ (g m).id = m.id) :
    Linked { s with live := s.live.map g } where
  handle l hl := by
    obtain ⟨m, hm, rfl⟩ := List.mem_map.mp hl
    rw [(hg m).1, (hg m).2]
    exact h.handle m hm
  held k n hk := by
    obtain ⟨m, hm, hid, hn⟩ := h.held k n hk
    exact ⟨g m, List.mem_map_of_mem hm, (hg m).2.trans hid, (hg m).1.trans hn⟩
  fresh l hl := by
    obtain ⟨m, hm, rfl⟩ := List.mem_map.mp hl
    rw [(hg m).1]
    exact h.fresh m hm
  nodup := by
    rw [List.map_map, show Live.number ∘ g = Live.number from funext fun m => (hg m).1]
    exact h.nodup

theorem begin_eq (h : s.Linked) (hl : l ∈ s.live) (hevery : l.every = none) :
    s.begin now l = (s.clearTimer l.id).modifyTimer l.id ({ · with s := now }) := by
  have hhandle : s.handle l.id = some l.number := h.handle l hl
  have hsame : ({ s with live := s.live.filter (·.number ≠ l.number) }.modifyTimer l.id
      ({ · with s := now })).handle l.id = some l.number :=
    (handle_modifyTimer (by intro _; rfl)).trans hhandle
  simp only [Table.begin, hevery]
  rw [clearTimer_eq, clearTimer_eq, hsame, hhandle]
  simp [Table.modifyTimer, Function.comp_def]

theorem mem_begin (h : s.Linked) (hl : l ∈ s.live) (hevery : l.every = none) :
    m ∈ (s.begin now l).live ↔ m ∈ s.live ∧ m.id ≠ l.id := by
  rw [h.begin_eq hl hevery, live_modifyTimer, h.mem_clearTimer]

theorem begin (h : s.Linked) (hl : l ∈ s.live) (now : ℚ) : (s.begin now l).Linked := by
  cases hevery : l.every with
  | none =>
    rw [h.begin_eq hl hevery]
    exact (h.clearTimer l.id).modifyTimer l.id fun _ => rfl
  | some intDelay =>
    simp only [Table.begin, hevery]
    refine h.mapLive fun m => ?_
    split_ifs <;> exact ⟨rfl, rfl⟩

theorem begin_frame (h : s.Linked) (hl : l ∈ s.live) (hid : id ≠ l.id) :
    (s.begin now l).timers id = s.timers id ∧
      ∀ m ∈ (s.begin now l).live, m.id = id → m ∈ s.live := by
  cases hevery : l.every with
  | none =>
    refine ⟨?_, fun m hm _ => ((h.mem_begin hl hevery).mp hm).1⟩
    rw [h.begin_eq hl hevery]
    simp [hid]
  | some intDelay =>
    refine ⟨by simp only [Table.begin, hevery], fun m hm hmid => ?_⟩
    simp only [Table.begin, hevery, List.mem_map] at hm
    obtain ⟨before, hbefore, rfl⟩ := hm
    split_ifs at hmid ⊢ with hnumber
    · obtain rfl := h.eq_of_number hbefore hl hnumber
      exact absurd hmid.symm hid
    · exact hbefore

theorem finish (h : s.Linked) (now : ℚ) (l : Live K A) : (s.finish now l).Linked := by
  cases hevery : l.every with
  | none =>
    simp only [Table.finish, hevery]
    exact h.modifyTimer l.id fun _ => rfl
  | some _ => simpa only [Table.finish, hevery] using h

theorem throttle (h : s.Linked) (id : K) (action : A) (now minInterval : ℚ) :
    (s.throttle id action now minInterval).Linked := by
  unfold Table.throttle
  split_ifs
  · exact h
  · exact h.setTimer id action now _ false

theorem exists_throttle (h : s.Linked) (id : K) (action : A) (now minInterval : ℚ) :
    ∃ l ∈ (s.throttle id action now minInterval).live, l.id = id := by
  refine (h.throttle id action now minInterval).hasTimer_iff.mp ?_
  unfold Table.throttle
  split_ifs with hhas
  · exact hhas
  · simp [hasTimer, handle_setTimer]

end Linked

end Table

end GoraddServe.NamedTimers
