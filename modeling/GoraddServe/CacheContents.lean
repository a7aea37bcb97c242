import GoraddServe.CacheCollection

/-!
# What the cache holds

The cache is a map that loses keys in collections: a key that is found has the value that was last
set under it, and one that is not found was never set, or a collection has removed it since. A
collection leaves a key alone that is among the last that were used, and has not expired.
-/
namespace GoraddServe.CacheContents
open GoMaps LabelledRuns ItemCache CacheEviction CacheCollection

variable {V : Type} {o o' : LruCache V} {hist : List (LruCache V × Label V)} {k : String}
  {v : Value V} {e : LruCache V × Label V}

def Sets (k : String) (v : Value V) (e : LruCache V × Label V) : Prop :=
  ∃ now, e.2 = .set k (some v) now

/-- The step is a collection that removes the key. -/
def Collects (k : String) (e : LruCache V × Label V) : Prop :=
  ∃ keys now, e.2 = .gc keys now ∧ e.1.has k = true ∧ (e.1.gc keys now).has k ≠ true

/-- Fewer other keys than the cache is to hold were used when the clock read the time of the last
access to this one or a later time, and by `now` it has not expired. -/
def Recent (hist : List (LruCache V × Label V)) (o : LruCache V) (k : String) (now : Int) : Prop :=
  ∃ n t, LastAccess hist k n t ∧ now ≤ t + o.ttl ∧
    ∃ others : Finset String, others.card < o.maxItemCount ∧
      ∀ k' n' t', k' ≠ k → LastAccess hist k' n' t' → t ≤ t' → k' ∈ others

def valueOf (o : LruCache V) (k : String) : Option (Value V) := (o.items.get k).map LruItem.value

theorem get_eq (o : LruCache V) (k : String) (now : Int) : (o.get k now).1 = valueOf o k := by
  rw [LruCache.get, valueOf]
  cases o.items.get k with
  | none => rfl
  | some i => rfl

theorem valueOf_put (o : LruCache V) (k' : String) (v : Value V) (now : Int) :
    valueOf (o.put k' v now) k = if k = k' then some v else valueOf o k := by
  rw [valueOf, LruCache.put, GoMap.get_set]
  split
  · rfl
  · rfl

theorem valueOf_get (o : LruCache V) (k' : String) (now : Int) :
    valueOf (o.get k' now).2 k = valueOf o k := by
  rw [LruCache.get]
  cases hget : o.items.get k' with
  | none => rfl
  | some i =>
    refine (valueOf_put ..).trans ?_
    split
    · next hk => rw [valueOf, hk, hget, Option.map_some]
    · rfl

theorem valueOf_gc {keys : List String} {now : Int} (hkeys : o.Sorted keys) :
    valueOf (o.gc keys now) k = if (o.gc keys now).has k = true then valueOf o k else none := by
  have hgc := gc_collected o keys now hkeys
  rw [valueOf, LruCache.has, GoMap.has]
  cases hget : (o.gc keys now).items.get k with
  | none => rfl
  | some i => rw [valueOf, hgc.kept k i hget, Option.isSome_some, if_pos rfl]

theorem has_iff : o.has k = true ↔ ∃ v, valueOf o k = some v := by
  rw [LruCache.has, GoMap.has, valueOf, Option.isSome_iff_exists]
  simp

theorem valueOf_step (h : step o e.2 = some o') (ho : e.1 = o) :
    valueOf o' k = some v ↔
      Sets k v e ∨ ((∀ v', ¬Sets k v' e) ∧ ¬Collects k e) ∧ valueOf o k = some v := by
  obtain ⟨s, a⟩ := e
  obtain rfl : s = o := ho
  unfold Sets Collects
  cases a with
  | set key value now =>
    obtain ⟨value, rfl, -, rfl⟩ := step_set.mp h
    have hitems : valueOf (s.put key value now).count k = valueOf (s.put key value now) k := by
      rw [valueOf, (sameItems_count _).items, valueOf]
    rw [hitems, valueOf_put]
    by_cases hk : k = key
    · subst hk
      simp
    · simp [hk, Ne.symm hk]
  | get key now =>
    cases h
    rw [valueOf_get]
    simp
  | has key =>
    cases h
    simp
  | setGCInterval interval =>
    cases h
    simp [LruCache.setGCInterval, valueOf]
  | gc keys now =>
    obtain ⟨⟨-, hkeys⟩, rfl⟩ := step_gc.mp h
    rw [valueOf_gc hkeys]
    simp only [reduceCtorEq, exists_false, not_false_eq_true, implies_true, false_or, true_and,
      Label.gc.injEq]
    constructor
    · intro hvalue
      split at hvalue
      · next hhas =>
        refine ⟨?_, hvalue⟩
        rintro ⟨_, _, ⟨rfl, rfl⟩, -, hnot⟩
        exact hnot hhas
      · cases hvalue
    · rintro ⟨hkept, hvalue⟩
      rw [if_pos, hvalue]
      by_contra hnot
      exact hkept ⟨keys, now, ⟨rfl, rfl⟩, has_iff.mpr ⟨v, hvalue⟩, hnot⟩

theorem valueOf_run {maxItemCount : ℕ} {ttlSeconds : Int}
    (run : Run step (newLruCache maxItemCount ttlSeconds) hist o) : valueOf o k = some v ↔
      Since (Sets k v) (fun e => (∀ v', ¬Sets k v' e) ∧ ¬Collects k e) hist := by
  induction run with
  | start => simp [not_since_nil, valueOf, newLruCache]
  | @next hist t u a run taken ih => rw [since_append, ← ih, valueOf_step (e := (t, a)) taken rfl]

/-- A key is found if and only if it has been set, and no collection has removed it since it was
last set; what is found is the value that was set then. -/
theorem hit_iff {maxItemCount : ℕ} {ttlSeconds : Int}
    (run : Run step (newLruCache maxItemCount ttlSeconds) hist o) (k : String) (v : Value V)
    (now : Int) : (o.get k now).1 = some v ↔
      Since (Sets k v) (fun e => (∀ v', ¬Sets k v' e) ∧ ¬Collects k e) hist := by
  rw [get_eq]
  exact valueOf_run run

theorem hit_iff_threeItems : ∃ o, exec step (newLruCache 2 1) threeItems = some o ∧
    Since (Sets "a" ⟨"1", false⟩) (fun e => (∀ v', ¬Sets "a" v' e) ∧ ¬Collects "a" e)
      (history step (newLruCache 2 1) threeItems) := by
  obtain ⟨o, ho⟩ : ∃ o, exec step (newLruCache 2 1) threeItems = some o := ⟨_, rfl⟩
  refine ⟨o, ho, (hit_iff (run_history ho) "a" ⟨"1", false⟩ 5).mp ?_⟩
  cases ho
  rfl

/-- A collection that removes a key that has not expired keeps as many others that do not expire
before it as the cache is to hold. -/
theorem has_gc_of_few {keys : List String} {now : Int} (hkeys : o.Sorted keys)
    (hk : o.has k = true) (hnow : now ≤ o.expires k) {others : Finset String}
    (hfew : others.card < o.maxItemCount)
    (hothers : ∀ k', k' ≠ k → o.has k' = true → o.expires k ≤ o.expires k' → k' ∈ others) :
    (o.gc keys now).has k = true := by
  by_contra hremoved
  have hgc := gc_collected o keys now hkeys
  have hkept : ∀ k', (o.gc keys now).has k' = true → o.has k' = true := by
    intro k' hk'
    obtain ⟨i, hi⟩ := Option.isSome_iff_exists.mp hk'
    exact Option.isSome_of_mem (hgc.kept k' i hi)
  have hothers' : (o.gc keys now).items.keys ⊆ others := by
    intro k' hk'
    have hhas := GoMap.mem_keys_iff.mp hk'
    have hle := hgc.order k k' hk hremoved hhas
    exact hothers k' (fun h => hremoved (h ▸ hhas)) (hkept k' hhas) hle
  -- so there is room, and every item that has not expired is kept
  have hlen := hgc.number
  have hcard : (o.gc keys now).items.len < o.maxItemCount :=
    (Finset.card_le_card hothers').trans_lt hfew
  have hsub : (o.gc keys now).items.keys ⊆ fresh o now := by
    intro k' hk'
    have hhas := GoMap.mem_keys_iff.mp hk'
    refine Finset.mem_filter.mpr ⟨GoMap.mem_keys_iff.mpr (hkept k' hhas), ?_⟩
    exact expires_eq hhas hgc.kept ▸ hgc.unexpired k' hhas
  have hall : (o.gc keys now).items.keys = fresh o now :=
    Finset.eq_of_subset_of_card_le hsub (by rw [GoMap.len] at hlen hcard; omega)
  have hfresh : k ∈ fresh o now := Finset.mem_filter.mpr ⟨GoMap.mem_keys_iff.mpr hk, hnow⟩
  exact hremoved (GoMap.mem_keys_iff.mp (hall ▸ hfresh))

theorem expires_of_tracked (htracked : Tracked hist o) (hoverflow : NoOverflow hist)
    (httl : ∀ e ∈ hist, e.1.ttl = o.ttl) (hk : o.has k = true) :
    ∃ n t, LastAccess hist k n t ∧ o.expires k = t + o.ttl := by
  obtain ⟨i, hi⟩ := Option.isSome_iff_exists.mp hk
  obtain ⟨n, t, hlast, hexpires⟩ := htracked k i hi
  obtain ⟨e, he, hfound⟩ := hlast.found
  have hmem := List.mem_of_getElem? he
  have htime := hoverflow e hmem (k, t) hfound
  rw [httl e hmem] at htime
  refine ⟨n, t, hlast, ?_⟩
  rw [LruCache.expires, hi, Option.map_some, Option.getD_some, hexpires, htime]

theorem Recent.has_gc {keys : List String} {now : Int} (h : Recent hist o k now)
    (htracked : Tracked hist o) (hoverflow : NoOverflow hist)
    (httl : ∀ e ∈ hist, e.1.ttl = o.ttl) (hkeys : o.Sorted keys) (hk : o.has k = true) :
    (o.gc keys now).has k = true := by
  obtain ⟨n, t, hlast, hnow, others, hfew, hothers⟩ := h
  have hexpires := @fun k => expires_of_tracked (k := k) htracked hoverflow httl
  obtain ⟨n', t', hlast', ht⟩ := hexpires k hk
  obtain rfl := hlast.unique hlast'
  refine has_gc_of_few hkeys hk (ht.symm ▸ hnow) hfew fun k' hne hk' hle => ?_
  obtain ⟨n'', t'', hlast'', ht''⟩ := hexpires k' hk'
  exact hothers k' n'' t'' hne hlast'' (by omega)

/-- A key that is among the last ones used at each collection since it was set is found, with the
value that was last set under it. -/
theorem found_while_recent {maxItemCount : ℕ} {ttlSeconds : Int}
    (run : Run step (newLruCache maxItemCount ttlSeconds) hist o) (hoverflow : NoOverflow hist)
    {before after : List (LruCache V × Label V)} (hsplit : hist = before ++ e :: after)
    (hset : Sets k v e) (hlast : ∀ e' ∈ after, ∀ v', ¬Sets k v' e')
    (hrecent : ∀ mid o' keys now rest, after = mid ++ (o', .gc keys now) :: rest →
      Recent (before ++ e :: mid) o' k now) (now : Int) : (o.get k now).1 = some v := by
  rw [get_eq]
  refine (valueOf_run run).mpr ⟨before, e, after, hsplit, hset, fun e' he' => ⟨hlast e' he', ?_⟩⟩
  rintro ⟨keys, now', hgc, hhas, hremoved⟩
  obtain ⟨mid, rest, hafter⟩ := List.append_of_mem he'
  obtain ⟨o', a⟩ := e'
  obtain rfl : a = .gc keys now' := hgc
  have hpre : (before ++ e :: mid) ++ [(o', .gc keys now')] <+: hist :=
    ⟨rest, by simp [hsplit, hafter]⟩
  obtain ⟨u, hrun, hstep⟩ := run.at_prefix hpre
  have hmem : ∀ e' ∈ before ++ e :: mid, e' ∈ hist := fun e' h =>
    hpre.subset (List.mem_append_left _ h)
  refine hremoved ((hrecent mid o' keys now' rest hafter).has_gc (tracked_run hrun rfl)
    (fun e' h => hoverflow e' (hmem e' h)) (fun e' h => ?_) (step_gc.mp hstep).1.2 hhas)
  obtain ⟨head, u', -, hhead, -⟩ := run.at_mem (hmem e' h)
  exact (ttl_run hhead).trans (ttl_run hrun).symm

def twoItems : List (Label String) :=
  [.setGCInterval 1, .set "b" (some ⟨"2", true⟩) 1, .set "a" (some ⟨"1", false⟩) 2]

theorem found_while_recent_twoItems : ∃ o, exec step (newLruCache 1 1)
    (twoItems ++ [.gc ["b", "a"] 5]) = some o ∧ (o.get "a" 6).1 = some ⟨"1", false⟩ := by
  obtain ⟨o, ho⟩ : ∃ o, exec step (newLruCache 1 1) (twoItems ++ [.gc ["b", "a"] 5]) = some o :=
    ⟨_, rfl⟩
  have hoverflow : NoOverflow (history step (newLruCache 1 1)
      (twoItems ++ [.gc ["b", "a"] 5])) := by
    unfold NoOverflow
    decide
  obtain ⟨o', hsplit, hmax, httl⟩ : ∃ o', history step (newLruCache 1 1)
      (twoItems ++ [.gc ["b", "a"] 5]) = history step (newLruCache 1 1) twoItems ++
        [(o', .gc ["b", "a"] 5)] ∧ o'.maxItemCount = 1 ∧ o'.ttl = 1000000000 :=
    ⟨_, rfl, rfl, rfl⟩
  refine ⟨o, ho, found_while_recent (run_history ho) hoverflow
    (show _ = [_, _] ++ _ :: [(o', _)] from hsplit) ⟨2, rfl⟩ ?_ ?_ 6⟩
  · rintro e' he' v' ⟨now, hset⟩
    obtain rfl := List.mem_singleton.mp he'
    cases hset
  · intro mid o'' keys now rest hafter
    rcases mid with _ | ⟨x, mid⟩
    · cases hafter
      refine ⟨2, 2, ⟨⟨_, rfl, rfl⟩, ?_⟩, by omega, ∅, hmax ▸ Nat.zero_lt_one, ?_⟩
      · intro m e now hm hget
        match m with
        | m + 3 => cases hget
      · intro k' n' t' hne hlast ht
        obtain ⟨e, hget, haccess⟩ := hlast.found
        match n' with
        | 0 =>
          cases hget
          cases haccess
        | 1 =>
          cases hget
          cases haccess
          omega
        | 2 =>
          cases hget
          cases haccess
          exact absurd rfl hne
        | n + 3 => cases hget
    · simp at hafter

end GoraddServe.CacheContents
