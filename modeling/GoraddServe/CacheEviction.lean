import GoraddServe.ItemCache
import GoraddServe.LabelledRuns

/-!
# Bounds and order of the cache

In every run the items are at most as many as the cache is to hold and the calls of `Set` since
the last collection. The counter of the calls comes round in time, and the times at which the
items expire are those of their last accesses, so a collection removes the keys whose last access
is the oldest.
-/
namespace GoraddServe.CacheEviction
open GoMaps LabelledRuns ItemCache

variable {V : Type} {o o' : LruCache V} {hist : List (LruCache V × Label V)} {k k' : String}

theorem step_set {v : Option (Value V)} {now : Int} : step o (.set k v now) = some o' ↔
    ∃ value, v = some value ∧ k ≠ "" ∧ o' = (o.put k value now).count := by
  cases v with
  | none => simp [step, LruCache.set, Except.toOption]
  | some value =>
    by_cases hk : k = ""
    · simp [step, LruCache.set, Except.toOption, hk]
    · simp [step, LruCache.set, Except.toOption, hk, eq_comm]

theorem step_gc {keys : List String} {now : Int} : step o (.gc keys now) = some o' ↔
    (o.collected < o.spawned ∧ o.Sorted keys) ∧ o' = o.gc keys now := by
  rw [step, Option.ite_none_right_eq_some, Option.some_inj, eq_comm (b := o')]

theorem count_eq (o : LruCache V) : ∃ setCounter gcHappened spawned,
    o.count = { o with setCounter, gcHappened, spawned } := by
  unfold LruCache.count
  extract_lets
  split
  · exact ⟨_, _, _, rfl⟩
  · exact ⟨_, _, _, rfl⟩

/-- What the counting of a `Set` leaves alone. -/
structure SameItems (o o' : LruCache V) : Prop where
  maxItemCount : o'.maxItemCount = o.maxItemCount
  ttl : o'.ttl = o.ttl
  items : o'.items = o.items
  gcInterval : o'.gcInterval = o.gcInterval

theorem sameItems_count (o : LruCache V) : SameItems o o.count := by
  obtain ⟨setCounter, gcHappened, spawned, hcount⟩ := count_eq o
  rw [hcount]
  exact ⟨rfl, rfl, rfl, rfl⟩

/-- No step changes what the cache has been made with. -/
theorem step_settings {a : Label V} (h : step o a = some o') :
    o'.maxItemCount = o.maxItemCount ∧ o'.ttl = o.ttl := by
  cases a with
  | set key v now =>
    obtain ⟨value, -, -, rfl⟩ := step_set.mp h
    have hcount := sameItems_count (o.put key value now)
    exact ⟨hcount.maxItemCount, hcount.ttl⟩
  | get key now =>
    cases h
    rw [LruCache.get]
    split
    · exact ⟨rfl, rfl⟩
    · exact ⟨rfl, rfl⟩
  | has key =>
    cases h
    exact ⟨rfl, rfl⟩
  | setGCInterval interval =>
    cases h
    exact ⟨rfl, rfl⟩
  | gc keys now =>
    obtain ⟨⟨-, hkeys⟩, rfl⟩ := step_gc.mp h
    obtain ⟨front, rest, -, -, hgc⟩ := gc_eq now hkeys
    have hsame := sameSettings_removeAll front o
    rw [hgc]
    exact ⟨hsame.maxItemCount, hsame.ttl⟩

theorem ttl_run {maxItemCount : ℕ} {ttlSeconds : Int}
    (run : Run step (newLruCache maxItemCount ttlSeconds) hist o) :
    o.ttl = int64 (ttlSeconds * (1000 * 1000 * 1000)) :=
  run.invariant (I := fun o => o.ttl = int64 (ttlSeconds * (1000 * 1000 * 1000)))
    (fun _ _ _ ht hstep => (step_settings hstep).2.trans ht) rfl

/-- The calls of `Set` since the last collection, when there were `n` before this step. -/
def Label.sinceGC (n : ℕ) : Label V → ℕ
  | .set .. => n + 1
  | .gc .. => 0
  | _ => n

def setsSinceGC (hist : List (LruCache V × Label V)) : ℕ :=
  hist.foldl (fun n e => Label.sinceGC n e.2) 0

/-- A step adds an item only when it is a `Set`. -/
theorem len_step {a : Label V} {n : ℕ} (h : step o a = some o')
    (hlen : o.items.len ≤ o.maxItemCount + n) :
    o'.items.len ≤ o.maxItemCount + Label.sinceGC n a := by
  cases a with
  | set key v now =>
    obtain ⟨value, -, -, rfl⟩ := step_set.mp h
    rw [(sameItems_count (o.put key value now)).items]
    exact (GoMap.len_set_le ..).trans (Nat.succ_le_succ hlen)
  | get key now =>
    cases h
    rw [LruCache.get]
    cases hget : o.items.get key with
    | none => exact hlen
    | some i =>
      have hhas : o.items.has key = true := by rw [GoMap.has, hget, Option.isSome_some]
      exact (GoMap.len_set_of_has hhas _).trans_le hlen
  | has key =>
    cases h
    exact hlen
  | setGCInterval interval =>
    cases h
    exact hlen
  | gc keys now =>
    obtain ⟨⟨-, hkeys⟩, rfl⟩ := step_gc.mp h
    obtain ⟨front, rest, -, hsmall, hgc⟩ := gc_eq now hkeys
    rw [hgc]
    exact hsmall

theorem len_run {s : LruCache V} (run : Run step s hist o) (hs : s.items.len ≤ s.maxItemCount) :
    o.items.len ≤ s.maxItemCount + setsSinceGC hist := by
  have hrun : o.maxItemCount = s.maxItemCount ∧
      o.items.len ≤ s.maxItemCount + setsSinceGC hist := by
    refine run.history_of (C := fun _ _ => True) (J := fun hist o =>
      o.maxItemCount = s.maxItemCount ∧ o.items.len ≤ s.maxItemCount + setsSinceGC hist)
      (fun hist t a u _ ht _ hu => ?_) (fun _ _ => trivial) ⟨rfl, hs⟩
    refine ⟨(step_settings hu).1.trans ht.1, ?_⟩
    have hlen := len_step hu (ht.1.symm ▸ ht.2)
    rw [ht.1] at hlen
    rwa [setsSinceGC, List.foldl_append]
  exact hrun.2

def Label.isSet : Label V → Bool
  | .set .. => true
  | _ => false

def sets (hist : List (LruCache V × Label V)) : ℕ := hist.countP fun e => Label.isSet e.2

theorem count_cases (o : LruCache V) (hcounter : 0 ≤ o.setCounter) :
    o.count.setCounter = 0 ∧ o.count.spawned = o.spawned + 1 ∨
      o.count.setCounter = o.setCounter + 1 ∧ o.count.spawned = o.spawned ∧
        o.count.setCounter < o.gcInterval := by
  rw [LruCache.count]
  by_cases hround : o.setCounter + 1 ≥ o.gcInterval
  · simp [hround]
  · have hpos : o.setCounter + 1 ≠ 0 := by omega
    simp only [hround, if_false, hpos, true_and]
    omega

/-- A step that is not a `Set` leaves the counters alone. -/
theorem counters_step {a : Label V} (h : step o a = some o') (ha : Label.isSet a = false) :
    o'.setCounter = o.setCounter ∧ o'.spawned = o.spawned := by
  cases a with
  | set key v now => cases ha
  | get key now =>
    cases h
    rw [LruCache.get]
    split
    · exact ⟨rfl, rfl⟩
    · exact ⟨rfl, rfl⟩
  | has key =>
    cases h
    exact ⟨rfl, rfl⟩
  | setGCInterval interval =>
    cases h
    exact ⟨rfl, rfl⟩
  | gc keys now =>
    obtain ⟨⟨-, hkeys⟩, rfl⟩ := step_gc.mp h
    obtain ⟨front, rest, -, -, hgc⟩ := gc_eq now hkeys
    have hsame := sameSettings_removeAll front o
    rw [hgc]
    exact ⟨hsame.setCounter, hsame.spawned⟩

theorem setCounter_step {a : Label V} (h : step o a = some o') (hcounter : 0 ≤ o.setCounter) :
    0 ≤ o'.setCounter := by
  cases ha : Label.isSet a with
  | false => exact (counters_step h ha).1 ▸ hcounter
  | true =>
    cases a with
    | set key v now =>
      obtain ⟨value, -, -, rfl⟩ := step_set.mp h
      rcases count_cases (o.put key value now) hcounter with ⟨hzero, -⟩ | ⟨hsucc, -⟩
      · exact hzero.ge
      · rw [hsucc]
        exact Int.le_add_one hcounter
    | _ => cases ha

/-- While the interval is `n`, either a collection has been started since `s`, or the counter has
gone up with every `Set` and is still below `n`. -/
def Counting (s : LruCache V) (n : Int) (hist : List (LruCache V × Label V)) (o : LruCache V) :
    Prop :=
  s.spawned < o.spawned ∨ o.spawned = s.spawned ∧ o.setCounter = s.setCounter + sets hist ∧
    (sets hist = 0 ∨ o.setCounter < n)

theorem Counting.step {s : LruCache V} {n : Int} {a : Label V} (h : Counting s n hist o)
    (hinterval : o.gcInterval = n) (hcounter : 0 ≤ o.setCounter)
    (hstep : ItemCache.step o a = some o') : Counting s n (hist ++ [(o, a)]) o' := by
  have hsets : sets (hist ++ [(o, a)]) = sets hist + (if Label.isSet a then 1 else 0) := by
    rw [sets, List.countP_append, List.countP_singleton, sets]
  unfold Counting at h ⊢
  rw [hsets]
  cases ha : Label.isSet a with
  | false =>
    obtain ⟨hsame, hspawned⟩ := counters_step hstep ha
    rw [hsame, hspawned]
    exact h
  | true =>
    cases a with
    | set key v now =>
      obtain ⟨value, -, -, rfl⟩ := step_set.mp hstep
      have hput : (o.put key value now).gcInterval = n := hinterval
      have hspawned : (o.put key value now).spawned = o.spawned := rfl
      have hsame : (o.put key value now).setCounter = o.setCounter := rfl
      have hcases := count_cases (o.put key value now) hcounter
      rw [hput, hspawned, hsame] at hcases
      simp only [if_true]
      push_cast
      omega
    | _ => cases ha

theorem counting_run {s : LruCache V} {n : Int} (run : Run step s hist o)
    (hcounter : 0 ≤ s.setCounter) (hinterval : ∀ e ∈ hist, e.1.gcInterval = n) :
    Counting s n hist o := by
  refine run.history_of (C := fun o _ => o.gcInterval = n) (J := Counting s n)
    (fun hist t a u hrun ht hn hu => ?_) hinterval (.inr ⟨rfl, (Int.add_zero _).symm, .inl rfl⟩)
  have ht' : 0 ≤ t.setCounter := hrun.invariant (I := fun o => 0 ≤ o.setCounter)
    (fun _ _ _ hcounter hstep => setCounter_step hstep hcounter) hcounter
  exact ht.step hn ht' hu

/-- The key whose time a step puts off, and what the clock reads then. -/
def access (o : LruCache V) : Label V → Option (String × Int)
  | .set key _ now => some (key, now)
  | .get key now => if o.has key then some (key, now) else none
  | _ => none

/-- What the clock reads in a step that reads it. -/
def reading (o : LruCache V) : Label V → Option Int
  | .gc _ now => some now
  | a => (access o a).map Prod.snd

def NonDecreasing (hist : List (LruCache V × Label V)) : Prop :=
  (hist.filterMap fun e => reading e.1 e.2).Pairwise (· ≤ ·)

/-- The time at which an item is to expire is always an `int64`. -/
def NoOverflow (hist : List (LruCache V × Label V)) : Prop :=
  ∀ e ∈ hist, ∀ a ∈ access e.1 e.2, int64 (a.2 + e.1.ttl) = a.2 + e.1.ttl

/-- The last access to `k` is the step `n` of the run, with the clock at `now`. -/
structure LastAccess (hist : List (LruCache V × Label V)) (k : String) (n : ℕ) (now : Int) :
    Prop where
  found : ∃ e, hist[n]? = some e ∧ access e.1 e.2 = some (k, now)
  last : ∀ m e now', n < m → hist[m]? = some e → access e.1 e.2 ≠ some (k, now')

section Access

variable {n n' : ℕ} {now now' : Int} {e : LruCache V × Label V}

theorem LastAccess.append (h : LastAccess hist k n now)
    (he : ∀ now', access e.1 e.2 ≠ some (k, now')) : LastAccess (hist ++ [e]) k n now := by
  obtain ⟨e', hn, hfound⟩ := h.found
  have hlt : n < hist.length := (List.getElem?_eq_some_iff.mp hn).1
  refine ⟨⟨e', (List.getElem?_append_left hlt).trans hn, hfound⟩, fun m e'' now' hm hget => ?_⟩
  rcases Nat.lt_or_ge m hist.length with hm' | hm'
  · rw [List.getElem?_append_left hm'] at hget
    exact h.last m e'' now' hm hget
  · rw [List.getElem?_append_right hm'] at hget
    obtain rfl := List.mem_singleton.mp (List.mem_of_getElem? hget)
    exact he now'

theorem lastAccess_append (he : access e.1 e.2 = some (k, now)) :
    LastAccess (hist ++ [e]) k hist.length now := by
  refine ⟨⟨e, List.getElem?_concat_length, he⟩, fun m e' now' hm hget => ?_⟩
  have hlen := (List.getElem?_eq_some_iff.mp hget).1
  rw [List.length_append, List.length_singleton] at hlen
  omega

/-- An item expires a `ttl` after the last access to its key. -/
def Tracked (hist : List (LruCache V × Label V)) (o : LruCache V) : Prop :=
  ∀ k i, o.items.get k = some i → ∃ n now, LastAccess hist k n now ∧ i.expires = int64 (now + o.ttl)

theorem Tracked.put {a : Label V} (h : Tracked hist o) (ha : access o a = some (k, now))
    (v : Value V) : Tracked (hist ++ [(o, a)]) (o.put k v now) := by
  intro k' i hi
  rw [LruCache.put, GoMap.get_set] at hi
  split at hi
  · next hk =>
    cases hi
    exact ⟨hist.length, now, lastAccess_append (hk ▸ ha), rfl⟩
  · next hk =>
    obtain ⟨n, now', hlast, hexpires⟩ := h k' i hi
    refine ⟨n, now', hlast.append fun now'' h => hk ?_, hexpires⟩
    cases ha.symm.trans h
    rfl

theorem Tracked.other {a : Label V} (h : Tracked hist o) (ha : access o a = none)
    (hitems : ∀ k i, o'.items.get k = some i → o.items.get k = some i) (httl : o'.ttl = o.ttl) :
    Tracked (hist ++ [(o, a)]) o' := by
  intro k i hi
  obtain ⟨n, now, hlast, hexpires⟩ := h k i (hitems k i hi)
  refine ⟨n, now, hlast.append fun now' h => ?_, httl.symm ▸ hexpires⟩
  cases ha.symm.trans h

theorem Tracked.step {a : Label V} (h : Tracked hist o) (hstep : ItemCache.step o a = some o') :
    Tracked (hist ++ [(o, a)]) o' := by
  cases a with
  | set key v now =>
    obtain ⟨value, -, -, rfl⟩ := step_set.mp hstep
    have hput := h.put (a := .set key v now) rfl value
    have hcount := sameItems_count (o.put key value now)
    intro k i hi
    rw [hcount.items] at hi
    rw [hcount.ttl]
    exact hput k i hi
  | get key now =>
    cases hstep
    rw [LruCache.get]
    have hhas : o.has key = (o.items.get key).isSome := rfl
    cases hget : o.items.get key with
    | none =>
      refine h.other ?_ (fun _ _ => id) rfl
      rw [access, hhas, hget, Option.isSome_none, if_neg Bool.false_ne_true]
    | some i =>
      refine h.put ?_ i.value
      rw [access, hhas, hget, Option.isSome_some, if_pos rfl]
  | has key =>
    cases hstep
    exact h.other rfl (fun _ _ => id) rfl
  | setGCInterval interval =>
    cases hstep
    exact h.other rfl (fun _ _ => id) rfl
  | gc keys now =>
    obtain ⟨⟨-, hkeys⟩, rfl⟩ := step_gc.mp hstep
    obtain ⟨front, rest, -, -, hgc⟩ := gc_eq now hkeys
    rw [hgc]
    exact h.other rfl (fun _ _ => get_removeAll) (sameSettings_removeAll front o).ttl

theorem tracked_run {s : LruCache V} (run : Run step s hist o) (hs : s.items = ∅) :
    Tracked hist o := by
  refine run.history_of (C := fun _ _ => True) (J := Tracked)
    (fun hist t a u _ ht _ hu => ht.step hu) (fun _ _ => trivial) fun k i hi => ?_
  rw [hs, GoMap.get_empty] at hi
  cases hi

theorem reading_of_access (h : access e.1 e.2 = some (k, now)) : reading e.1 e.2 = some now := by
  obtain ⟨o, a⟩ := e
  cases a with
  | gc keys now => cases h
  | _ => exact congrArg (Option.map Prod.snd) h

theorem LastAccess.unique (h : LastAccess hist k n now) (h' : LastAccess hist k n' now') :
    now = now' := by
  obtain ⟨e, he, hfound⟩ := h.found
  obtain ⟨e', he', hfound'⟩ := h'.found
  rcases Nat.lt_trichotomy n n' with hn | rfl | hn
  · exact absurd hfound' (h.last n' e' now' hn he')
  · cases he.symm.trans he'
    cases hfound.symm.trans hfound'
    rfl
  · exact absurd hfound (h'.last n e now hn he)

theorem LastAccess.le (hclock : NonDecreasing hist) (h : LastAccess hist k n now)
    (h' : LastAccess hist k' n' now') (hn : n < n') : now ≤ now' := by
  obtain ⟨e, he, hfound⟩ := h.found
  obtain ⟨e', he', hfound'⟩ := h'.found
  obtain ⟨hlt, he⟩ := List.getElem?_eq_some_iff.mp he
  obtain ⟨hlt', he'⟩ := List.getElem?_eq_some_iff.mp he'
  rw [NonDecreasing, List.pairwise_filterMap, List.pairwise_iff_getElem] at hclock
  have hle := hclock n n' hlt hlt' hn
  rw [he, he'] at hle
  exact hle now (reading_of_access hfound) now' (reading_of_access hfound')

end Access

/-- The collection removes keys whose last access is no later than that of every key it keeps, by
the clock and, unless the clock reads the same, by the order of the steps. -/
def EvictsOldest (hist : List (LruCache V × Label V)) (o o' : LruCache V) : Prop :=
  ∀ k k', o.has k = true → o'.has k ≠ true → o'.has k' = true → ∃ n now n' now',
    LastAccess hist k n now ∧ LastAccess hist k' n' now' ∧ now ≤ now' ∧ (n ≤ n' ∨ now = now')

theorem gc_evictsOldest {keys : List String} {now : Int} (htracked : Tracked hist o)
    (hclock : NonDecreasing hist) (hoverflow : NoOverflow hist)
    (httl : ∀ e ∈ hist, e.1.ttl = o.ttl) (hkeys : o.Sorted keys) :
    EvictsOldest hist o (o.gc keys now) := by
  intro k k' hk hremoved hkept
  have hexpires : ∀ k, o.has k = true → ∃ n now, LastAccess hist k n now ∧
      o.expires k = now + o.ttl := by
    intro k hk
    obtain ⟨i, hi⟩ := Option.isSome_iff_exists.mp hk
    obtain ⟨n, now, hlast, hexpires⟩ := htracked k i hi
    obtain ⟨e, he, hfound⟩ := hlast.found
    have hmem := List.mem_of_getElem? he
    have htime := hoverflow e hmem (k, now) hfound
    rw [httl e hmem] at htime
    refine ⟨n, now, hlast, ?_⟩
    rw [← htime, ← hexpires, LruCache.expires, hi]
    rfl
  have hk' : o.has k' = true := by
    obtain ⟨front, rest, -, -, hgc⟩ := gc_eq now hkeys
    rw [hgc] at hkept
    exact (has_removeAll.mp hkept).2
  obtain ⟨n, t, hlast, ht⟩ := hexpires k hk
  obtain ⟨n', t', hlast', ht'⟩ := hexpires k' hk'
  have hle : t ≤ t' := by
    have horder := gc_order hkeys hk hremoved hkept
    omega
  refine ⟨n, t, n', t', hlast, hlast', hle, ?_⟩
  rcases Nat.lt_or_ge n' n with hn | hn
  · exact .inr (le_antisymm hle (hlast'.le hclock hlast hn))
  · exact .inl hn

/-- What holds after every run of a new cache: the bound on the items, that enough calls of `Set`
start a collection, and the order in which the next collection removes. -/
theorem lru_cache {maxItemCount : ℕ} {ttlSeconds : Int}
    (run : Run step (newLruCache maxItemCount ttlSeconds) hist o) :
    o.items.len ≤ maxItemCount + setsSinceGC hist ∧
      (∀ (n : Int) seg o', Run step o seg o' → 1 ≤ n → (∀ e ∈ seg, e.1.gcInterval = n) →
        n ≤ sets seg → o.spawned < o'.spawned) ∧
      (NonDecreasing hist → NoOverflow hist → ∀ keys now o',
        step o (.gc keys now) = some o' → EvictsOldest hist o o') := by
  have hcounter : 0 ≤ o.setCounter := run.invariant (I := fun o => 0 ≤ o.setCounter)
    (fun _ _ _ hcounter hstep => setCounter_step hstep hcounter) (le_refl 0)
  refine ⟨len_run run (Nat.zero_le _), fun n seg o' hrun hn hinterval hsets => ?_,
    fun hclock hoverflow keys now o' hstep => ?_⟩
  · have hcounting := counting_run hrun hcounter hinterval
    unfold Counting at hcounting
    omega
  · obtain ⟨⟨-, hkeys⟩, rfl⟩ := step_gc.mp hstep
    refine gc_evictsOldest (tracked_run run rfl) hclock hoverflow (fun e he => ?_) hkeys
    obtain ⟨head, u, -, hrun, -⟩ := run.at_mem he
    exact (ttl_run hrun).trans (ttl_run run).symm

/-- Three items for a cache of two, one of them read again. -/
def threeItems : List (Label String) :=
  [.setGCInterval 1, .set "a" (some ⟨"1", false⟩) 1, .set "b" (some ⟨"2", true⟩) 2, .get "a" 3,
    .set "c" (some ⟨"3", false⟩) 4]

theorem lru_cache_threeItems :
    EvictsOldest (history step (newLruCache 2 1) threeItems)
      (final step (newLruCache 2 1) threeItems rfl)
      ((final step (newLruCache 2 1) threeItems rfl).gc ["b", "a", "c"] 5) := by
  refine (lru_cache (run_history (Option.some_get _).symm)).2.2 ?_ ?_ ["b", "a", "c"] 5 _ ?_
  · unfold NonDecreasing
    decide
  · unfold NoOverflow
    decide
  · exact step_gc.mpr ⟨by decide, rfl⟩

end GoraddServe.CacheEviction
