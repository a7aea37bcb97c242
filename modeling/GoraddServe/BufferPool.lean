import GoraddServe.DisabledOutput
import GoraddServe.LabelledRuns

/-!
# The buffers of concurrent requests

Each request through `WithBufferedOutput` takes a buffer out of the pool, or a new one, and
gives it back when its handler has returned or panicked. A buffer has one owner at a time, the
pool or a request, and it is empty when the pool owns it. So a request finds in its buffer only
what its own handler has written there, and gets the response that it gets alone.
-/
namespace GoraddServe.BufferPool
open LabelledRuns Panics ResponseWriters BufferedOutput BufferedCalls DisabledOutput

/-- `bytes.Buffer` -/
structure Buffer where
  bytes : Bytes
  cap : ℕ

/-- A call of the handler of `WithBufferedOutput`: its `outBuf`, the calls its `next` has made,
what has been written to its `w`, whether `next` has ended by return (`some true`) or by panic,
and whether `PutBuffer` was called. -/
structure Serving where
  outBuf : ℕ
  calls : List Call
  disabled : Bool
  body : Bytes
  ended : Option Bool
  done : Bool

/-- Buffers are numbered in the order in which they are made, and `pool` has the ones that
`sync.Pool` may hand out. -/
structure State where
  buffer : ℕ → Buffer
  made : ℕ
  pool : List ℕ
  serving : ℕ → Option Serving

def init : State := ⟨fun _ => ⟨[], 0⟩, 0, [], fun _ => none⟩

namespace State

variable (s : State)

def update (i : ℕ) (v : Serving) : State :=
  { s with serving := Function.update s.serving i (some v) }

def setBuffer (b : ℕ) (buf : Buffer) : State :=
  { s with buffer := Function.update s.buffer b buf }

@[simp] theorem update_self (i : ℕ) (v : Serving) : (s.update i v).serving i = some v :=
  Function.update_self ..

theorem update_of_ne {i j : ℕ} (v : Serving) (h : j ≠ i) :
    (s.update i v).serving j = s.serving j := Function.update_of_ne h ..

@[simp] theorem setBuffer_self (b : ℕ) (buf : Buffer) : (s.setBuffer b buf).buffer b = buf :=
  Function.update_self ..

theorem setBuffer_of_ne {b b' : ℕ} (buf : Buffer) (h : b' ≠ b) :
    (s.setBuffer b buf).buffer b' = s.buffer b' := Function.update_of_ne h ..

/-- `pool.GetBuffer()`, where `sync.Pool` returns a buffer it holds or calls `New`. -/
def getBuffer : Option ℕ → Option (ℕ × State)
  | none => some (s.made, { s.setBuffer s.made ⟨[], 0⟩ with made := s.made + 1 })
  | some b => if b ∈ s.pool then some (b, { s with pool := s.pool.erase b }) else none

def putBuffer (maxBufferSize b : ℕ) : State :=
  if (s.buffer b).cap < maxBufferSize then
    { s.setBuffer b { s.buffer b with bytes := [] } with pool := b :: s.pool }
  else s

def serve (i : ℕ) (pooled : Option ℕ) : Option State :=
  match s.serving i with
  | some _ => none
  | none => (s.getBuffer pooled).map fun (outBuf, s) =>
    s.update i ⟨outBuf, [], false, [], none, false⟩

/-- The handler of a request makes a call, after which its buffer has a certain capacity. -/
def call (i : ℕ) (c : Call) (cap : ℕ) : Option State :=
  match s.serving i with
  | none => none
  | some v =>
    let buf := s.buffer v.outBuf
    let o := Output.after ⟨buf.bytes, v.body, v.disabled⟩ c
    if v.ended = none ∧ buf.cap ≤ cap ∧ o.buffered.length ≤ cap then
      some ((s.setBuffer v.outBuf ⟨o.buffered, cap⟩).update i
        { v with calls := v.calls ++ [c], disabled := o.disabled, body := o.direct })
    else none

/-- The handler returns, and the buffer is written, or it panics. -/
def finish (i : ℕ) (returned : Bool) : Option State :=
  match s.serving i with
  | none => none
  | some v =>
    if v.ended = none then
      let body := if returned then v.body ++ (s.buffer v.outBuf).bytes else v.body
      some (s.update i { v with body, ended := some returned })
    else none

def release (maxBufferSize i : ℕ) : Option State :=
  match s.serving i with
  | none => none
  | some v =>
    if v.ended ≠ none ∧ v.done = false then
      some ((s.putBuffer maxBufferSize v.outBuf).update i { v with done := true })
    else none

end State

/-- `drop` is what the garbage collector may do to a pool. -/
inductive Action where
  | serve (i : ℕ) (pooled : Option ℕ)
  | call (i : ℕ) (c : Call) (cap : ℕ)
  | finish (i : ℕ) (returned : Bool)
  | release (i : ℕ)
  | drop (b : ℕ)

def step (maxBufferSize : ℕ) (s : State) : Action → Option State
  | .serve i pooled => s.serve i pooled
  | .call i c cap => s.call i c cap
  | .finish i returned => s.finish i returned
  | .release i => s.release maxBufferSize i
  | .drop b => some { s with pool := s.pool.erase b }

def HeldBy (s : State) (i b : ℕ) : Prop :=
  ∃ v, s.serving i = some v ∧ v.done = false ∧ v.outBuf = b

/-- A buffer has one owner, and is empty in the pool. -/
structure Owned (s : State) : Prop where
  empty : ∀ b ∈ s.pool, (s.buffer b).bytes = []
  nodup : s.pool.Nodup
  apart : ∀ i b, HeldBy s i b → b ∉ s.pool
  alone : ∀ i j b, HeldBy s i b → HeldBy s j b → i = j
  pooled : ∀ b ∈ s.pool, b < s.made
  held : ∀ i b, HeldBy s i b → b < s.made

section Owners

variable {s : State} {i j b : ℕ} {v v' : Serving}

theorem heldBy_update : HeldBy (s.update i v) j b ↔
    (j = i ∧ v.done = false ∧ v.outBuf = b) ∨ (j ≠ i ∧ HeldBy s j b) := by
  rw [HeldBy, HeldBy]
  by_cases hj : j = i
  · subst hj
    simp
  · simp [hj, s.update_of_ne v hj]

theorem Owned.setBuffer (hs : Owned s) (hb : b ∉ s.pool) (buf : Buffer) :
    Owned (s.setBuffer b buf) := by
  refine ⟨fun b' hb' => ?_, hs.nodup, hs.apart, hs.alone, hs.pooled, hs.held⟩
  have hne : b' ≠ b := fun h => hb (h ▸ hb')
  rw [s.setBuffer_of_ne buf hne]
  exact hs.empty b' hb'

theorem Owned.update (hs : Owned s) (hv : v.done = false → HeldBy s i v.outBuf) :
    Owned (s.update i v) := by
  have hheld : ∀ j b, HeldBy (s.update i v) j b → HeldBy s j b := by
    intro j b h
    rcases heldBy_update.mp h with ⟨rfl, hdone, rfl⟩ | ⟨-, h⟩
    · exact hv hdone
    · exact h
  exact ⟨hs.empty, hs.nodup, fun j b h => hs.apart j b (hheld j b h),
    fun j k b h h' => hs.alone j k b (hheld j b h) (hheld k b h'), hs.pooled,
    fun j b h => hs.held j b (hheld j b h)⟩

theorem Owned.take (hs : Owned s) (hpool : v.outBuf ∉ s.pool) (hmade : v.outBuf < s.made)
    (hfree : ∀ j, ¬HeldBy s j v.outBuf) : Owned (s.update i v) := by
  refine ⟨hs.empty, hs.nodup, fun j b h => ?_, fun j k b h h' => ?_, hs.pooled, fun j b h => ?_⟩
  · rcases heldBy_update.mp h with ⟨-, -, rfl⟩ | ⟨-, h⟩
    · exact hpool
    · exact hs.apart j b h
  · rcases heldBy_update.mp h with ⟨rfl, -, rfl⟩ | ⟨-, h⟩
    · rcases heldBy_update.mp h' with ⟨rfl, -, -⟩ | ⟨-, h'⟩
      · rfl
      · exact absurd h' (hfree k)
    · rcases heldBy_update.mp h' with ⟨-, -, rfl⟩ | ⟨-, h'⟩
      · exact absurd h (hfree j)
      · exact hs.alone j k b h h'
  · rcases heldBy_update.mp h with ⟨-, -, rfl⟩ | ⟨-, h⟩
    · exact hmade
    · exact hs.held j b h

theorem Owned.erase (hs : Owned s) (b : ℕ) : Owned { s with pool := s.pool.erase b } where
  empty b' hb' := hs.empty b' (List.mem_of_mem_erase hb')
  nodup := hs.nodup.erase b
  apart i b' h hb' := hs.apart i b' h (List.mem_of_mem_erase hb')
  alone := hs.alone
  pooled b' hb' := hs.pooled b' (List.mem_of_mem_erase hb')
  held := hs.held

/-- A buffer that no request has any more goes to the pool, or is left alone. -/
theorem Owned.putBuffer (hs : Owned s) (hpool : b ∉ s.pool) (hmade : b < s.made)
    (hfree : ∀ j, ¬HeldBy s j b) (maxBufferSize : ℕ) : Owned (s.putBuffer maxBufferSize b) := by
  rw [State.putBuffer]
  split
  · have hset := hs.setBuffer hpool { s.buffer b with bytes := [] }
    have hself := s.setBuffer_self b { s.buffer b with bytes := [] }
    refine ⟨fun b' hb' => ?_, List.nodup_cons.mpr ⟨hpool, hs.nodup⟩, fun j b' h hb' => ?_, hs.alone,
      fun b' hb' => ?_, hs.held⟩
    · rcases List.mem_cons.mp hb' with rfl | hb'
      · exact congrArg Buffer.bytes hself
      · exact hset.empty b' hb'
    · rcases List.mem_cons.mp hb' with rfl | hb'
      · exact hfree j h
      · exact hs.apart j b' h hb'
    · rcases List.mem_cons.mp hb' with rfl | hb'
      · exact hmade
      · exact hs.pooled b' hb'
  · exact hs

end Owners

/-- What a request has in its buffer and has sent comes from its own calls. -/
structure Own (s : State) (v : Serving) : Prop where
  disabled : v.disabled = (output v.calls).disabled
  running : v.ended = none → v.done = false ∧
    (s.buffer v.outBuf).bytes = (output v.calls).buffered ∧ v.body = (output v.calls).direct
  returned : v.ended = some true → v.body = (output v.calls).direct ++ (output v.calls).buffered
  panicked : v.ended = some false → v.body = (output v.calls).direct

structure Separate (s : State) : Prop where
  owned : Owned s
  own : ∀ i v, s.serving i = some v → Own s v

section Steps

variable {s t : State} {i b : ℕ} {v : Serving} {maxBufferSize : ℕ}

theorem Own.mono (hv : Own s v) (hb : v.ended = none → t.buffer v.outBuf = s.buffer v.outBuf) :
    Own t v := by
  refine ⟨hv.disabled, fun hended => ?_, hv.returned, hv.panicked⟩
  rw [hb hended]
  exact hv.running hended

theorem Separate.update (hs : Separate s) (howned : Owned (t.update i v))
    (hserving : t.serving = s.serving) (hown : Own t v)
    (hbuffer : ∀ j b', j ≠ i → HeldBy s j b' → t.buffer b' = s.buffer b') :
    Separate (t.update i v) := by
  refine ⟨howned, fun j w hj => ?_⟩
  by_cases hji : j = i
  · subst hji
    rw [State.update_self] at hj
    cases hj
    exact hown.mono fun _ => rfl
  · rw [t.update_of_ne v hji, hserving] at hj
    refine (hs.own j w hj).mono fun hended => hbuffer j w.outBuf hji ?_
    exact ⟨w, hj, ((hs.own j w hj).running hended).1, rfl⟩

/-- A request gets a buffer that is empty and that no one else has. -/
theorem getBuffer_cases (hs : Owned s) {pooled : Option ℕ}
    (h : s.getBuffer pooled = some (b, t)) :
    Owned t ∧ t.serving = s.serving ∧ b ∉ t.pool ∧ b < t.made ∧ (t.buffer b).bytes = [] ∧
      (∀ j, ¬HeldBy s j b) ∧ ∀ j b', HeldBy s j b' → t.buffer b' = s.buffer b' := by
  cases pooled with
  | none =>
    cases h
    have hfresh : s.made ∉ s.pool := fun hb => lt_irrefl _ (hs.pooled _ hb)
    have hfree : ∀ j, ¬HeldBy s j s.made := fun j hj => lt_irrefl _ (hs.held j _ hj)
    have hset := hs.setBuffer hfresh ⟨[], 0⟩
    have hself := s.setBuffer_self s.made ⟨[], 0⟩
    refine ⟨⟨hset.empty, hs.nodup, hs.apart, hs.alone, fun b hb => (hs.pooled b hb).trans
      (Nat.lt_succ_self _), fun i b hb => (hs.held i b hb).trans (Nat.lt_succ_self _)⟩, rfl,
      hfresh, Nat.lt_succ_self _, congrArg Buffer.bytes hself, hfree, fun j b' hb' => ?_⟩
    have hne : b' ≠ s.made := fun hne => hfree j (hne ▸ hb')
    exact s.setBuffer_of_ne _ hne
  | some b =>
    rw [State.getBuffer] at h
    split at h
    · next hb =>
      cases h
      exact ⟨hs.erase b, rfl, fun h => (hs.nodup.mem_erase_iff.mp h).1 rfl, hs.pooled b hb,
        hs.empty b hb, fun j hj => hs.apart j b hj hb, fun _ _ _ => rfl⟩
    · cases h

theorem serve_cases {pooled : Option ℕ} (h : s.serve i pooled = some t) :
    ∃ b u, s.serving i = none ∧ s.getBuffer pooled = some (b, u) ∧
      t = u.update i ⟨b, [], false, [], none, false⟩ := by
  rw [State.serve] at h
  split at h
  · cases h
  · next hnone =>
    obtain ⟨⟨b, u⟩, hget, rfl⟩ := Option.map_eq_some_iff.mp h
    exact ⟨b, u, hnone, hget, rfl⟩

theorem Separate.serve (hs : Separate s) {pooled : Option ℕ} (h : s.serve i pooled = some t) :
    Separate t := by
  obtain ⟨b, u, -, hget, rfl⟩ := serve_cases h
  obtain ⟨howned, hserving, hpool, hmade, hempty, hfree, hbuffer⟩ := getBuffer_cases hs.owned hget
  have hown : Own u ⟨b, [], false, [], none, false⟩ :=
    ⟨rfl, fun _ => ⟨rfl, hempty, rfl⟩, nofun, nofun⟩
  refine hs.update (howned.take hpool hmade fun j hj => hfree j ?_) hserving hown
    fun j b' _ hj => hbuffer j b' hj
  rwa [HeldBy, hserving] at hj

theorem call_cases {c : Call} {cap : ℕ} (h : s.call i c cap = some t) :
    ∃ v o, s.serving i = some v ∧ v.ended = none ∧
      o = Output.after ⟨(s.buffer v.outBuf).bytes, v.body, v.disabled⟩ c ∧
      t = (s.setBuffer v.outBuf ⟨o.buffered, cap⟩).update i
        { v with calls := v.calls ++ [c], disabled := o.disabled, body := o.direct } := by
  rw [State.call] at h
  split at h
  · cases h
  · next v hv =>
    dsimp only at h
    split at h
    · next hended =>
      cases h
      exact ⟨v, _, hv, hended.1, rfl, rfl⟩
    · cases h

theorem Separate.call (hs : Separate s) {c : Call} {cap : ℕ} (h : s.call i c cap = some t) :
    Separate t := by
  obtain ⟨v, o, hv, hended, ho, rfl⟩ := call_cases h
  have hown := hs.own i v hv
  obtain ⟨hdone, hbuf, hbody⟩ := hown.running hended
  have hheld : HeldBy s i v.outBuf := ⟨v, hv, hdone, rfl⟩
  have ho : o = output (v.calls ++ [c]) := by
    rw [ho, hbuf, hbody, hown.disabled]
    simp [output]
  have hself := s.setBuffer_self v.outBuf ⟨o.buffered, cap⟩
  subst ho
  refine hs.update ((hs.owned.setBuffer (hs.owned.apart i _ hheld) _).update fun _ => hheld) rfl
    ⟨rfl, fun _ => ⟨hdone, congrArg Buffer.bytes hself, rfl⟩, fun h => ?_, fun h => ?_⟩
    fun j b' hji hj => s.setBuffer_of_ne _ fun hne => hji ?_
  · cases hended.symm.trans h
  · cases hended.symm.trans h
  · exact hs.owned.alone j i v.outBuf (hne ▸ hj) hheld

theorem finish_cases {returned : Bool} (h : s.finish i returned = some t) :
    ∃ v, s.serving i = some v ∧ v.ended = none ∧
      t = s.update i { v with
        body := if returned then v.body ++ (s.buffer v.outBuf).bytes else v.body
        ended := some returned } := by
  rw [State.finish] at h
  split at h
  · cases h
  · next v hv =>
    split at h
    · next hended =>
      cases h
      exact ⟨v, hv, hended, rfl⟩
    · cases h

theorem Separate.finish (hs : Separate s) {returned : Bool} (h : s.finish i returned = some t) :
    Separate t := by
  obtain ⟨v, hv, hended, rfl⟩ := finish_cases h
  have hown := hs.own i v hv
  obtain ⟨hdone, hbuf, hbody⟩ := hown.running hended
  refine hs.update (hs.owned.update fun _ => ⟨v, hv, hdone, rfl⟩) rfl
    ⟨hown.disabled, nofun, fun h => ?_, fun h => ?_⟩ fun _ _ _ _ => rfl
  · cases h
    exact congrArg₂ (· ++ ·) hbody hbuf
  · cases h
    exact hbody

theorem release_cases (h : s.release maxBufferSize i = some t) :
    ∃ v, s.serving i = some v ∧ v.ended ≠ none ∧ v.done = false ∧
      t = (s.putBuffer maxBufferSize v.outBuf).update i { v with done := true } := by
  rw [State.release] at h
  split at h
  · cases h
  · next v hv =>
    split at h
    · next hended =>
      cases h
      exact ⟨v, hv, hended.1, hended.2, rfl⟩
    · cases h

theorem putBuffer_update : (s.putBuffer maxBufferSize b).update i v =
    (s.update i v).putBuffer maxBufferSize b := by
  rw [State.putBuffer]
  rw [apply_ite (State.update · i v)]
  rfl

theorem putBuffer_serving : (s.putBuffer maxBufferSize b).serving = s.serving := by
  rw [State.putBuffer]
  split <;> rfl

theorem putBuffer_buffer {b' : ℕ} (hb' : b' ≠ b) :
    (s.putBuffer maxBufferSize b).buffer b' = s.buffer b' := by
  rw [State.putBuffer]
  split
  · exact s.setBuffer_of_ne _ hb'
  · rfl

/-- Once the request is done, its buffer has no owner and `PutBuffer` may give it to the pool. -/
theorem Separate.release (hs : Separate s) (h : s.release maxBufferSize i = some t) :
    Separate t := by
  obtain ⟨v, hv, hended, hdone, rfl⟩ := release_cases h
  have hown := hs.own i v hv
  have hheld : HeldBy s i v.outBuf := ⟨v, hv, hdone, rfl⟩
  have howned : Owned (s.update i { v with done := true }) := hs.owned.update nofun
  have hfree : ∀ j, ¬HeldBy (s.update i { v with done := true }) j v.outBuf := by
    intro j hj
    rcases heldBy_update.mp hj with ⟨-, hdone, -⟩ | ⟨hji, hj⟩
    · cases hdone
    · exact hji (hs.owned.alone j i v.outBuf hj hheld)
  have hput := howned.putBuffer (hs.owned.apart i _ hheld) (hs.owned.held i _ hheld) hfree
    maxBufferSize
  refine hs.update (putBuffer_update ▸ hput) putBuffer_serving
    ⟨hown.disabled, fun h => absurd h hended, hown.returned, hown.panicked⟩
    fun j b' hji hj => putBuffer_buffer fun hne => hji ?_
  exact hs.owned.alone j i v.outBuf (hne ▸ hj) hheld

theorem Separate.step (hs : Separate s) {a : Action} (h : step maxBufferSize s a = some t) :
    Separate t := by
  cases a with
  | serve i pooled => exact hs.serve h
  | call i c cap => exact hs.call h
  | finish i returned => exact hs.finish h
  | release i => exact hs.release h
  | drop b =>
    cases h
    exact ⟨hs.owned.erase b, fun j w hj => (hs.own j w hj).mono fun _ => rfl⟩

end Steps

def State.callsOf (s : State) (i : ℕ) : List Call := (s.serving i).elim [] Serving.calls

def Action.callOf (i : ℕ) : Action → Option Call
  | .call j c _ => if j = i then some c else none
  | _ => none

/-- The calls of a request among the steps of a run. -/
def callsIn (i : ℕ) (hist : List (State × Action)) : List Call :=
  hist.filterMap fun e => e.2.callOf i

section Calls

variable {s t : State} {i j : ℕ} {v : Serving} {maxBufferSize : ℕ} {hist : List (State × Action)}

theorem callsOf_update :
    (s.update i v).callsOf j = if j = i then v.calls else s.callsOf j := by
  rw [State.callsOf, State.callsOf]
  by_cases hj : j = i
  · subst hj
    simp
  · rw [s.update_of_ne v hj, if_neg hj]

theorem callsOf_of_serving (hserving : s.serving i = some v) : s.callsOf i = v.calls := by
  rw [State.callsOf, hserving]
  rfl

theorem callsOf_step {a : Action} (hs : Separate s) (h : step maxBufferSize s a = some t) :
    t.callsOf j = s.callsOf j ++ (a.callOf j).toList := by
  cases a with
  | serve i pooled =>
    obtain ⟨b, u, hnone, hget, rfl⟩ := serve_cases h
    have hserving := (getBuffer_cases hs.owned hget).2.1
    rw [callsOf_update, State.callsOf, State.callsOf, hserving]
    split
    · next hj => simp [hj, hnone, Action.callOf]
    · simp [Action.callOf]
  | call i c cap =>
    obtain ⟨v, o, hv, -, -, rfl⟩ := call_cases h
    rw [callsOf_update]
    split
    · next hj => simp [hj, callsOf_of_serving hv, Action.callOf]
    · next hj => simp [Ne.symm hj, Action.callOf, State.callsOf, State.setBuffer]
  | finish i returned =>
    obtain ⟨v, hv, -, rfl⟩ := finish_cases h
    rw [callsOf_update]
    split
    · next hj => simp [hj, callsOf_of_serving hv, Action.callOf]
    · simp [Action.callOf]
  | release i =>
    obtain ⟨v, hv, -, -, rfl⟩ := release_cases h
    rw [callsOf_update]
    split
    · next hj => simp [hj, callsOf_of_serving hv, Action.callOf]
    · simp [Action.callOf, State.callsOf, putBuffer_serving]
  | drop b =>
    cases h
    simp [Action.callOf, State.callsOf]

end Calls

section Runs

variable {t : State} {maxBufferSize : ℕ} {hist : List (State × Action)}

theorem separate_run (h : Run (step maxBufferSize) init hist t) : Separate t :=
  h.invariant (fun _ _ _ hs ht => hs.step ht)
    ⟨⟨nofun, List.nodup_nil, fun _ _ _ => List.not_mem_nil, nofun, nofun, nofun⟩, nofun⟩

theorem callsOf_run (h : Run (step maxBufferSize) init hist t) (i : ℕ) :
    t.callsOf i = callsIn i hist := by
  refine h.history_of (C := fun _ _ => True) (J := fun hist t => t.callsOf i = callsIn i hist)
    (fun hist s a t run hs _ ht => ?_) (fun _ _ => trivial) rfl
  have hone : callsIn i [(s, a)] = (a.callOf i).toList := by
    cases hc : a.callOf i <;> simp [callsIn, hc]
  rw [callsOf_step (separate_run run) ht, hs, ← hone, callsIn, callsIn, callsIn,
    List.filterMap_append]

/-- Every buffer has one owner, is empty in the pool and at the start of a request, and the body
of a response is what the request's own calls have sent and left in the buffer. -/
theorem requests_separate (h : Run (step maxBufferSize) init hist t) :
    (∀ b ∈ t.pool, (t.buffer b).bytes = []) ∧ t.pool.Nodup ∧
      (∀ i b, HeldBy t i b → b ∉ t.pool) ∧ (∀ i j b, HeldBy t i b → HeldBy t j b → i = j) ∧
      (∀ i pooled u, step maxBufferSize t (.serve i pooled) = some u →
        ∃ b, HeldBy u i b ∧ (u.buffer b).bytes = []) ∧
      ∀ i v, t.serving i = some v →
        (v.ended ≠ some true → v.body = (output (callsIn i hist)).direct) ∧
        (v.ended = some true →
          v.body = (output (callsIn i hist)).direct ++ (output (callsIn i hist)).buffered) := by
  have ht := separate_run h
  refine ⟨ht.owned.empty, ht.owned.nodup, ht.owned.apart, ht.owned.alone,
    fun i pooled u hu => ?_, fun i v hv => ?_⟩
  · obtain ⟨b, w, -, hget, rfl⟩ := serve_cases hu
    obtain ⟨-, -, -, -, hempty, -⟩ := getBuffer_cases ht.owned hget
    exact ⟨b, heldBy_update.mpr (.inl ⟨rfl, rfl, rfl⟩), hempty⟩
  · have hown := ht.own i v hv
    rw [← callsOf_run h i, callsOf_of_serving hv]
    refine ⟨fun hended => ?_, hown.returned⟩
    cases hcase : v.ended with
    | none => exact (hown.running hcase).2.2
    | some returned =>
      cases returned with
      | false => exact hown.panicked hcase
      | true => exact absurd hcase hended

theorem body_of_returned {ε : Type} {next : Handler ε} {r : Request} {x y z : Exchange ε}
    {i : ℕ} {v : Serving} (h : Run (step maxBufferSize) init hist t) (hv : t.serving i = some v)
    (hended : v.ended = some true)
    (hreturns : outcome (next (innerWriter .server x) (innerRequest r x)) (Exchange.buffer x) =
      (.ok ⟨⟩, z))
    (hmakes : Makes (innerWriter .server x) (innerRequest r x) (Exchange.buffer x)
      (callsIn i hist) z)
    (hnormal : outcome (withBufferedOutput next .server r) x = (.ok ⟨⟩, y)) :
    written y.server.calls = written x.server.calls ++ v.body := by
  rw [written_withBufferedOutput hreturns hmakes hnormal, ((separate_run h).own i v hv).returned
    hended, ← callsOf_of_serving hv, callsOf_run h]

theorem body_of_panicked {ε : Type} {next : Handler ε} {r : Request} {x z : Exchange ε}
    {p : PanicValue} {i : ℕ} {v : Serving} (h : Run (step maxBufferSize) init hist t)
    (hv : t.serving i = some v) (hended : v.ended = some false)
    (hpanics : outcome (next (innerWriter .server x) (innerRequest r x)) (Exchange.buffer x) =
      (.error p, z))
    (hmakes : Makes (innerWriter .server x) (innerRequest r x) (Exchange.buffer x)
      (callsIn i hist) z) :
    written (outcome (withBufferedOutput next .server r) x).2.server.calls =
      written x.server.calls ++ v.body := by
  rw [withBufferedOutput_error hpanics, (holds_of_makes rfl hmakes).sent,
    ((separate_run h).own i v hv).panicked hended, ← callsOf_of_serving hv, callsOf_run h]

end Runs

/-- Two requests at the same time, one of which panics, and then a third one that takes the
buffer of the second. -/
def reusing : List Action :=
  [.serve 0 none, .serve 1 none, .call 0 (.write [1]) 64, .call 1 (.write [2]) 64,
    .finish 0 false, .call 1 (.write [3]) 20000, .finish 1 true, .release 1, .release 0,
    .serve 2 (some 0), .call 2 (.write [4]) 64, .finish 2 true]

theorem reusing_runs : (exec (step 20000) init reusing).isSome = true := by decide

theorem requests_separate_reusing : ∃ t hist v, Run (step 20000) init hist t ∧
    t.pool = [] ∧ t.serving 2 = some v ∧ v.body = [4] := by
  obtain ⟨hist, run, hlabels⟩ := run_final reusing_runs
  have hserving : (final (step 20000) init reusing reusing_runs).serving 2 =
    some ⟨0, [.write [4]], false, [4], some true, false⟩ := by rfl
  refine ⟨_, hist, _, run, by rfl, hserving, ?_⟩
  rw [((requests_separate run).2.2.2.2.2 2 _ hserving).2 rfl, ← callsOf_run run]
  rfl

end GoraddServe.BufferPool
