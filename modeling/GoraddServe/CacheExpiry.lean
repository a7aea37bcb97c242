import GoraddServe.CacheCollection

/-!
# The lifetime of an item

The lifetime is given in seconds and kept in nanoseconds, and the time at which an item expires is
the sum of the clock and the lifetime, all in 64 bits. When the sum does not fit, it is a time
long past, and the item expires at once.
-/
namespace GoraddServe.CacheExpiry
open GoMaps LabelledRuns ItemCache CacheEviction CacheCollection

variable {V : Type} {o : LruCache V} {hist : List (LruCache V × Label V)} {keys : List String}
  {k : String} {now : Int} {maxItemCount : ℕ} {ttlSeconds : Int}

/-- The clock does not go back, and reads at most 2^62 nanoseconds. -/
structure Timed (hist : List (LruCache V × Label V)) : Prop where
  nonDecreasing : NonDecreasing hist
  range : ∀ e ∈ hist, ∀ now ∈ reading e.1 e.2, 0 ≤ now ∧ now ≤ 2 ^ 62

/-- What is called is `Set`, `Get` and `Has`, and collections run. -/
def UsesMethods (hist : List (LruCache V × Label V)) : Prop :=
  ∀ e ∈ hist, ∀ interval, e.2 ≠ .setGCInterval interval

/-- The first loop of a collection removes an item only when more than the lifetime has passed since
the last access to its key. -/
def ExpiresLate (ttlSeconds : Int) (hist : List (LruCache V × Label V)) : Prop :=
  ∀ head o keys now, head ++ [(o, .gc keys now)] <+: hist → ∀ k, o.has k = true →
    (LruCache.expireLoop now keys o).2.has k ≠ true → ∀ n t, LastAccess head k n t →
      ttlSeconds * (1000 * 1000 * 1000) < now - t

theorem int64_of_range {n : Int} (h : -2 ^ 63 ≤ n) (h' : n < 2 ^ 63) : int64 n = n := by
  rw [int64, Int.bmod_def]
  omega

theorem int64_of_large {n : Int} (h : 2 ^ 63 ≤ n) (h' : n < 3 * 2 ^ 63) :
    int64 n = n - 2 ^ 64 := by
  rw [int64, Int.bmod_def]
  omega

theorem int64_range (n : Int) : -2 ^ 63 ≤ int64 n ∧ int64 n < 2 ^ 63 := by
  rw [int64, Int.bmod_def]
  omega

theorem expires_of_expireLoop (hkeys : o.Sorted keys) (hk : o.has k = true)
    (hremoved : (LruCache.expireLoop now keys o).2.has k ≠ true) : o.expires k < now := by
  obtain ⟨front, rest, -, hloop, -, hfront, -⟩ := expireLoop_stops now hkeys.1.1 o
  rw [hloop] at hremoved
  refine hfront k ?_
  by_contra hnot
  exact hremoved (has_removeAll.mpr ⟨hnot, hk⟩)

theorem expiresLate_of_short (hshort : ttlSeconds ≤ 4611686018) (hpos : 0 ≤ ttlSeconds)
    (run : Run step (newLruCache maxItemCount ttlSeconds) hist o) (htimed : Timed hist) :
    ExpiresLate ttlSeconds hist := by
  intro head o keys now hpre k hk hremoved n t hlast
  obtain ⟨u, hrun, hstep⟩ := run.at_prefix hpre
  obtain ⟨⟨-, hkeys⟩, -⟩ := step_gc.mp hstep
  have hexpired := expires_of_expireLoop hkeys hk hremoved
  have httl : o.ttl = ttlSeconds * (1000 * 1000 * 1000) := by
    refine (ttl_run hrun).trans (int64_of_range ?_ ?_)
    · omega
    · omega
  obtain ⟨i, hi⟩ := Option.isSome_iff_exists.mp hk
  obtain ⟨n', t', hlast', hexpires⟩ := tracked_run hrun rfl k i hi
  obtain rfl := hlast.unique hlast'
  -- the last access is a step of the run, so its time is in the range of the clock
  obtain ⟨e, he, hfound⟩ := hlast.found
  have hmem : e ∈ hist := ((List.prefix_append head _).trans hpre).subset (List.mem_of_getElem? he)
  have hrange := htimed.range e hmem t (reading_of_access hfound)
  have hk' : o.expires k = int64 (t + o.ttl) := by
    rw [LruCache.expires, hi]
    exact hexpires
  rw [int64_of_range (by omega) (by omega)] at hk'
  have hlate : o.expires k < now := hexpired
  omega

/-- After `n` calls of `Set` for one key at one time. -/
structure Repeated (v : Value V) (t : Int) (n : ℕ) (hist : List (LruCache V × Label V))
    (o : LruCache V) : Prop where
  labels : ∀ e ∈ hist, e.2 = .set "a" (some v) t
  interval : ∀ e ∈ hist, e.1.gcInterval = o.gcInterval
  number : sets hist = n
  stored : n ≠ 0 → o.items.get "a" = some ⟨int64 (t + o.ttl), v⟩
  only : ∀ k, o.has k = true → k = "a"
  collected : o.collected = 0

section Repeated

variable {v : Value V} {t : Int} {n : ℕ}

theorem Repeated.set (h : Repeated v t n hist o) :
    Repeated v t (n + 1) (hist ++ [(o, .set "a" (some v) t)]) (o.put "a" v t).count := by
  obtain ⟨setCounter, gcHappened, spawned, hcount⟩ := count_eq (o.put "a" v t)
  rw [hcount]
  refine ⟨fun e he => ?_, fun e he => ?_, ?_, fun _ => ?_, fun k hk => ?_, h.collected⟩
  · rcases List.mem_append.mp he with he | he
    · exact h.labels e he
    · rw [List.mem_singleton.mp he]
  · rcases List.mem_append.mp he with he | he
    · exact h.interval e he
    · rw [List.mem_singleton.mp he]
      rfl
  · rw [sets, List.countP_append, ← sets, h.number]
    rfl
  · exact (GoMap.get_set ..).trans (if_pos rfl)
  · exact ((GoMap.has_set ..).mp hk).elim id (h.only k)

theorem exists_repeated (maxItemCount : ℕ) (ttlSeconds : Int) (v : Value V) (t : Int) (n : ℕ) :
    ∃ hist o, Run step (newLruCache maxItemCount ttlSeconds) hist o ∧
      o.gcInterval = (newLruCache (V := V) maxItemCount ttlSeconds).gcInterval ∧
      Repeated v t n hist o := by
  induction n with
  | zero =>
    refine ⟨[], _, .start, rfl, by simp, by simp, rfl, by simp, fun k hk => ?_, rfl⟩
    have hnone : (none : Option (LruItem V)).isSome = true := GoMap.get_empty k ▸ hk
    cases hnone
  | succ n ih =>
    obtain ⟨hist, o, run, hinterval, h⟩ := ih
    have hset : step o (.set "a" (some v) t) = some (o.put "a" v t).count :=
      step_set.mpr ⟨v, rfl, by decide, rfl⟩
    exact ⟨_, _, run.next hset, (sameItems_count _).gcInterval.trans hinterval, h.set⟩

theorem Repeated.expires (h : Repeated v t n hist o) (hn : n ≠ 0)
    (hexpired : int64 (t + o.ttl) < now) :
    o.Sorted ["a"] ∧ o.has "a" = true ∧ (LruCache.expireLoop now ["a"] o).2.has "a" ≠ true := by
  have hhas : o.has "a" = true := Option.isSome_of_mem (h.stored hn)
  have hexpires : o.expires "a" < now := by
    rw [LruCache.expires, h.stored hn]
    exact hexpired
  refine ⟨⟨⟨List.nodup_singleton "a", Finset.ext fun k => ?_⟩, List.pairwise_singleton ..⟩, hhas,
    ?_⟩
  · rw [List.mem_toFinset, List.mem_singleton, GoMap.mem_keys_iff]
    exact ⟨fun hk => hk ▸ hhas, h.only k⟩
  · rw [LruCache.expireLoop, if_pos hexpires, if_pos rfl]
    exact fun hk => ((GoMap.has_delete ..).mp hk).1 rfl

/-- The history is in the range of the clock when `t` and `now` are. -/
theorem Repeated.timed (h : Repeated v t n hist o) (ht : 0 ≤ t) (hle : t ≤ now)
    (hnow : now ≤ 2 ^ 62) :
    Timed (hist ++ [(o, .gc ["a"] now)]) ∧ UsesMethods (hist ++ [(o, .gc ["a"] now)]) := by
  have hreadings : ∀ e ∈ hist, reading e.1 e.2 = some t := fun e he => by
    rw [h.labels e he]
    rfl
  refine ⟨⟨?_, fun e he now' hread => ?_⟩, fun e he interval => ?_⟩
  · rw [NonDecreasing, List.pairwise_filterMap, List.pairwise_append]
    refine ⟨List.pairwise_of_forall_mem_list fun e he e' he' t₁ h₁ t₂ h₂ => ?_,
      List.pairwise_singleton .., fun e he e' he' t₁ h₁ t₂ h₂ => ?_⟩
    · cases (hreadings e he).symm.trans h₁
      cases (hreadings e' he').symm.trans h₂
      exact le_rfl
    · cases (hreadings e he).symm.trans h₁
      rw [List.mem_singleton.mp he'] at h₂
      cases h₂
      exact hle
  · rcases List.mem_append.mp he with he | he
    · cases (hreadings e he).symm.trans hread
      exact ⟨ht, hle.trans hnow⟩
    · rw [List.mem_singleton.mp he] at hread
      cases hread
      exact ⟨ht.trans hle, hnow⟩
  · rcases List.mem_append.mp he with he | he
    · rw [h.labels e he]
      exact fun h => by cases h
    · rw [List.mem_singleton.mp he]
      exact fun h => by cases h

end Repeated

/-- A collection at `now` removes an item too early when the sum of `t` and the lifetime is a time
before `now`. -/
theorem exists_early (maxItemCount : ℕ) (v : Value V) {t : Int} (ht : 0 ≤ t) (hle : t ≤ now)
    (hnow : now ≤ 2 ^ 62)
    (hexpired : int64 (t + int64 (ttlSeconds * (1000 * 1000 * 1000))) < now)
    (hearly : now - t ≤ ttlSeconds * (1000 * 1000 * 1000)) :
    ∃ hist o, Run step (newLruCache (V := V) maxItemCount ttlSeconds) hist o ∧ UsesMethods hist ∧
      Timed hist ∧ ¬ExpiresLate ttlSeconds hist := by
  -- as many calls of `Set` as start a collection
  obtain ⟨n, hn⟩ : ∃ n : ℕ, (newLruCache (V := V) maxItemCount ttlSeconds).gcInterval = n + 1 := by
    refine ⟨((newLruCache (V := V) maxItemCount ttlSeconds).gcInterval - 1).toNat, ?_⟩
    rw [newLruCache]
    dsimp only
    split <;> omega
  obtain ⟨hist, o, run, hinterval, h⟩ := exists_repeated maxItemCount ttlSeconds v t (n + 1)
  have httl := ttl_run run
  obtain ⟨hkeys, hhas, hremoved⟩ := h.expires (Nat.succ_ne_zero n) (httl ▸ hexpired)
  obtain ⟨htimed, huses⟩ := h.timed ht hle hnow
  have hspawned : o.collected < o.spawned := by
    have hcounting := counting_run run (le_refl 0)
      fun e he => (h.interval e he).trans (hinterval.trans hn)
    have hnone : (newLruCache (V := V) maxItemCount ttlSeconds).setCounter = 0 := rfl
    have hnumber := h.number
    have hcollected := h.collected
    unfold Counting at hcounting
    omega
  have hstep : step o (.gc ["a"] now) = some (o.gc ["a"] now) :=
    step_gc.mpr ⟨⟨hspawned, hkeys⟩, rfl⟩
  refine ⟨_, _, run.next hstep, huses, htimed, fun hlate => ?_⟩
  obtain ⟨i, hi⟩ := Option.isSome_iff_exists.mp hhas
  obtain ⟨m, t', hlast, -⟩ := tracked_run run rfl "a" i hi
  obtain ⟨e, he, hfound⟩ := hlast.found
  have ht' : t' = t := by
    rw [h.labels e (List.mem_of_getElem? he)] at hfound
    cases hfound
    rfl
  have hpassed := hlate hist o ["a"] now List.prefix_rfl "a" hhas hremoved m t' hlast
  omega

/-- No item expires early in any run when and only when the lifetime is less than 2^62
nanoseconds. -/
theorem expiresLate_iff (V : Type) [Inhabited V] (maxItemCount : ℕ) (ttlSeconds : Int)
    (hpos : 0 ≤ ttlSeconds) (hint : ttlSeconds < 2 ^ 63) :
    (∀ (hist : List (LruCache V × Label V)) o,
      Run step (newLruCache maxItemCount ttlSeconds) hist o → UsesMethods hist → Timed hist →
        ExpiresLate ttlSeconds hist) ↔ ttlSeconds ≤ 4611686018 := by
  constructor
  · intro h
    by_contra hlong
    have hearly : ∀ t : Int, 0 ≤ t → t ≤ 2 ^ 62 →
        ¬int64 (t + int64 (ttlSeconds * (1000 * 1000 * 1000))) < 2 ^ 62 := by
      intro t ht hle hexpired
      obtain ⟨hist, o, run, huses, htimed, hlate⟩ := exists_early
        maxItemCount ⟨(default : V), false⟩ ht hle le_rfl hexpired (by omega)
      exact hlate (h hist o run huses htimed)
    -- a lifetime that does not expire at the last time when it starts at 0 is too large at 2^62
    obtain ⟨hlow, hhigh⟩ := int64_range (ttlSeconds * (1000 * 1000 * 1000))
    have hfirst := hearly 0 le_rfl (by omega)
    rw [int64_of_range (by omega) (by omega)] at hfirst
    have hlast := hearly (2 ^ 62) (by omega) le_rfl
    rw [int64_of_large (by omega) (by omega)] at hlast
    omega
  · exact fun hshort hist o run _ htimed => expiresLate_of_short hshort hpos run htimed

theorem expiresLate_iff_hour :
    (∀ (hist : List (LruCache String × Label String)) o,
      Run step (newLruCache 100 3600) hist o → UsesMethods hist → Timed hist →
        ExpiresLate 3600 hist) ↔ (3600 : Int) ≤ 4611686018 :=
  expiresLate_iff String 100 3600 (by decide) (by decide)

/-- The largest lifetime, for items that are never to expire, comes out as minus one second. -/
theorem largest_expires_early :
    ¬∀ (hist : List (LruCache String × Label String)) o,
      Run step (newLruCache 100 9223372036854775807) hist o → UsesMethods hist → Timed hist →
        ExpiresLate 9223372036854775807 hist := by
  intro h
  have hwrapped : int64 (1 + int64 (9223372036854775807 * (1000 * 1000 * 1000))) < 2 := by decide
  obtain ⟨hist, o, run, huses, htimed, hlate⟩ := exists_early 100 (⟨"1", false⟩ : Value String)
    (by decide) (by decide) (by decide) hwrapped (by decide)
  exact hlate (h hist o run huses htimed)

end GoraddServe.CacheExpiry
