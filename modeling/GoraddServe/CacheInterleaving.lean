import GoraddServe.CacheEviction

/-!
# Calls of the cache side by side

A `Set` reads the clock before it takes the lock, and a `Get` reads it under the lock. Between the
two parts of a `Set` other calls have the lock, and when one of them has put off the time of the
same key, the `Set` puts it back.
-/
namespace GoraddServe.CacheInterleaving
open GoMaps LabelledRuns ItemCache
open CacheEviction (count_eq sameItems_count)

variable {V : Type}

/-- A `Set` that has made its item and waits for the lock; the clock read `now`. -/
structure SetCall (V : Type) where
  key : String
  item : LruItem V
  now : Int

/-- What `o.Set(key, v)` does before it takes the lock. -/
def prepare (o : LruCache V) (key : String) (v : Option (Value V)) (now : Int) :
    Except String (SetCall V) :=
  match v with
  | none => .error "Cannot put a nil pointer into the lru cache"
  | some v =>
    if key = "" then .error "Cannot use a blank key in the lru cache"
    else .ok ⟨key, ⟨int64 (now + o.ttl), v⟩, now⟩

def store (o : LruCache V) (c : SetCall V) : LruCache V :=
  { o with items := o.items.set c.key c.item }.count

theorem set_eq (o : LruCache V) (key : String) (v : Option (Value V)) (now : Int) :
    o.set key v now = (prepare o key v now).map (store o) := by
  cases v with
  | none => rfl
  | some v =>
    rw [LruCache.set, prepare]
    split
    · rfl
    · rfl

structure System (V : Type) where
  cache : LruCache V
  calls : List (SetCall V)

inductive Action (V : Type) where
  /-- a `Set` up to the lock -/
  | prepare (key : String) (v : Option (Value V)) (now : Int)
  /-- a `Set` that waits takes the lock -/
  | store (i : ℕ)
  | get (key : String) (now : Int)
  /-- a collection that has been started runs -/
  | gc (keys : List String) (now : Int)

def step (s : System V) : Action V → Option (System V)
  | .prepare key v now =>
    (prepare s.cache key v now).toOption.map fun c => { s with calls := s.calls ++ [c] }
  | .store i => s.calls[i]?.map fun c => ⟨store s.cache c, s.calls.eraseIdx i⟩
  | .get key now => some { s with cache := (s.cache.get key now).2 }
  | .gc keys now =>
    (ItemCache.step s.cache (.gc keys now)).map fun o => { s with cache := o }

/-- The key whose time a step changes, and the reading of the clock that it takes. -/
def access (s : System V) : Action V → Option (String × Int)
  | .prepare .. => none
  | .store i => s.calls[i]?.map fun c => (c.key, c.now)
  | .get key now => if s.cache.has key then some (key, now) else none
  | .gc .. => none

/-- What the clock reads in a step that reads it. -/
def reading (s : System V) : Action V → Option Int
  | .prepare _ _ now => some now
  | .store _ => none
  | .get key now => if s.cache.has key then some now else none
  | .gc _ now => some now

def readings (hist : List (System V × Action V)) : List Int :=
  hist.filterMap fun e => reading e.1 e.2

def NonDecreasing (hist : List (System V × Action V)) : Prop := (readings hist).Pairwise (· ≤ ·)

/-- The key has been accessed at `t`, and has been in the cache ever since. -/
def Accessed (hist : List (System V × Action V)) (k : String) (t : Int) : Prop :=
  ∃ head e tail, hist = head ++ e :: tail ∧ access e.1 e.2 = some (k, t) ∧
    ∀ e' ∈ tail, e'.1.cache.has k = true

/-- A `Set` takes the lock when its key, which has stayed in the cache, has been accessed at a later
time than its own. -/
def Overtaken (hist : List (System V × Action V)) (s : System V) (a : Action V) : Prop :=
  ∃ i c t, a = .store i ∧ s.calls[i]? = some c ∧ s.cache.has c.key = true ∧
    Accessed hist c.key t ∧ c.now < t

def NotOvertaken (hist : List (System V × Action V)) : Prop :=
  ∀ head e, head ++ [e] <+: hist → ¬Overtaken head e.1 e.2

/-- The sums of the clock and the lifetime all wrap around equally often. -/
def SameWindow (hist : List (System V × Action V)) : Prop :=
  ∃ d, ∀ e ∈ hist, ∀ p ∈ access e.1 e.2,
    int64 (p.2 + e.1.cache.ttl) = p.2 + e.1.cache.ttl - d

/-- No step sets back the time of a key that stays. -/
def NeverBack (hist : List (System V × Action V)) : Prop :=
  ∀ e ∈ hist, ∀ s', step e.1 e.2 = some s' → ∀ k i i', e.1.cache.items.get k = some i →
    s'.cache.items.get k = some i' → i.expires ≤ i'.expires

/-- No collection removes a key that has been accessed later than a key that it keeps. -/
def EvictsOldest (hist : List (System V × Action V)) : Prop :=
  ∀ head s keys now, head ++ [(s, .gc keys now)] <+: hist → ∀ k k', s.cache.has k = true →
    (s.cache.gc keys now).has k ≠ true → (s.cache.gc keys now).has k' = true →
      ∀ t, Accessed head k t → ∃ t', Accessed head k' t' ∧ t ≤ t'

variable {s s' : System V} {a : Action V} {hist : List (System V × Action V)} {k : String}
  {t : Int} {ttl : Int}

theorem step_prepare {v : Option (Value V)} {now : Int} (h : step s (.prepare k v now) = some s') :
    ∃ value, s' =
      { s with calls := s.calls ++ [⟨k, ⟨int64 (now + s.cache.ttl), value⟩, now⟩] } := by
  cases v with
  | none => cases h
  | some value =>
    rw [step, prepare] at h
    split at h
    · cases h
    · cases h
      exact ⟨value, rfl⟩

theorem step_store {i : ℕ} (h : step s (.store i) = some s') :
    ∃ c, s.calls[i]? = some c ∧ s' = ⟨store s.cache c, s.calls.eraseIdx i⟩ := by
  obtain ⟨c, hc, rfl⟩ := Option.map_eq_some_iff.mp h
  exact ⟨c, hc, rfl⟩

theorem step_gc {keys : List String} {now : Int} (h : step s (.gc keys now) = some s') :
    s.cache.Sorted keys ∧ s' = { s with cache := s.cache.gc keys now } := by
  obtain ⟨o, ho, rfl⟩ := Option.map_eq_some_iff.mp h
  obtain ⟨⟨-, hkeys⟩, rfl⟩ := CacheEviction.step_gc.mp ho
  exact ⟨hkeys, rfl⟩

/-- A step puts an item for what it accesses, or it accesses nothing and only takes items away. -/
theorem effect_of_step (hcalls : ∀ c ∈ s.calls, c.item.expires = int64 (c.now + s.cache.ttl))
    (h : step s a = some s') :
    (∃ k t v, access s a = some (k, t) ∧
      s'.cache.items = s.cache.items.set k ⟨int64 (t + s.cache.ttl), v⟩) ∨
    (access s a = none ∧ ∀ k i, s'.cache.items.get k = some i → s.cache.items.get k = some i) := by
  cases a with
  | prepare key v now =>
    obtain ⟨value, rfl⟩ := step_prepare h
    exact .inr ⟨rfl, fun _ _ => id⟩
  | store i =>
    obtain ⟨c, hc, rfl⟩ := step_store h
    refine .inl ⟨c.key, c.now, c.item.value, ?_, ?_⟩
    · rw [access, hc, Option.map_some]
    · rw [← hcalls c (List.mem_of_getElem? hc)]
      exact (sameItems_count _).items
  | get key now =>
    cases h
    have hhas : s.cache.has key = (s.cache.items.get key).isSome := rfl
    rw [access, LruCache.get, hhas]
    cases hget : s.cache.items.get key with
    | none => exact .inr ⟨if_neg Bool.false_ne_true, fun _ _ => id⟩
    | some i => exact .inl ⟨key, now, i.value, if_pos rfl, rfl⟩
  | gc keys now =>
    obtain ⟨hkeys, rfl⟩ := step_gc h
    obtain ⟨front, rest, -, -, hgc⟩ := gc_eq now hkeys
    rw [hgc]
    exact .inr ⟨rfl, fun _ _ => get_removeAll⟩

theorem ttl_step (h : step s a = some s') : s'.cache.ttl = s.cache.ttl := by
  cases a with
  | prepare key v now =>
    obtain ⟨value, rfl⟩ := step_prepare h
    rfl
  | store i =>
    obtain ⟨c, -, rfl⟩ := step_store h
    exact (sameItems_count _).ttl
  | get key now =>
    cases h
    exact (CacheEviction.step_settings (a := .get key now) rfl).2
  | gc keys now =>
    obtain ⟨o, ho, rfl⟩ := Option.map_eq_some_iff.mp h
    exact (CacheEviction.step_settings ho).2

/-- A call that waits has waited before, or the step has read the clock for it. -/
theorem calls_step (h : step s a = some s') : ∀ c ∈ s'.calls, c ∈ s.calls ∨
    reading s a = some c.now ∧ c.item.expires = int64 (c.now + s.cache.ttl) := by
  intro c hc
  cases a with
  | prepare key v now =>
    obtain ⟨value, rfl⟩ := step_prepare h
    rcases List.mem_append.mp hc with hc | hc
    · exact .inl hc
    · rw [List.mem_singleton.mp hc]
      exact .inr ⟨rfl, rfl⟩
  | store i =>
    obtain ⟨c', -, rfl⟩ := step_store h
    exact .inl (List.mem_of_mem_eraseIdx hc)
  | get key now =>
    cases h
    exact .inl hc
  | gc keys now =>
    obtain ⟨-, rfl⟩ := step_gc h
    exact .inl hc

/-- The time of an access is what the clock reads in that step, or has read for a call that
waits. -/
theorem access_cases (h : access s a = some (k, t)) :
    reading s a = some t ∨ ∃ i c, a = .store i ∧ s.calls[i]? = some c ∧ c.key = k ∧ c.now = t := by
  cases a with
  | prepare key v now => cases h
  | store i =>
    obtain ⟨c, hc, heq⟩ := Option.map_eq_some_iff.mp h
    cases heq
    exact .inr ⟨i, c, rfl, hc, rfl, rfl⟩
  | get key now =>
    rw [access] at h
    split at h
    · next hhas =>
      cases h
      exact .inl (if_pos hhas)
    · cases h
  | gc keys now => cases h

theorem readings_append : readings (hist ++ [(s, a)]) = readings hist ++ (reading s a).toList := by
  rw [readings, List.filterMap_append, readings, List.filterMap_cons]
  cases reading s a with
  | none => rfl
  | some t => rfl

/-- What waits has its time from the clock, and so has every access. -/
structure Inv (hist : List (System V × Action V)) (s : System V) : Prop where
  calls : ∀ c ∈ s.calls, c.item.expires = int64 (c.now + s.cache.ttl) ∧ c.now ∈ readings hist
  accesses : ∀ e ∈ hist, ∀ p ∈ access e.1 e.2, e.1.cache.ttl = s.cache.ttl ∧ p.2 ∈ readings hist

theorem Inv.step (h : Inv hist s) (hstep : step s a = some s') : Inv (hist ++ [(s, a)]) s' := by
  have hmono : ∀ t ∈ readings hist, t ∈ readings (hist ++ [(s, a)]) := fun t ht =>
    readings_append ▸ List.mem_append_left _ ht
  have hnew : ∀ {t}, reading s a = some t → t ∈ readings (hist ++ [(s, a)]) := fun hread =>
    readings_append ▸ List.mem_append_right _ (Option.mem_toList.mpr hread)
  have httl := ttl_step hstep
  refine ⟨fun c hc => ?_, fun e he p hp => ?_⟩
  · rw [httl]
    rcases calls_step hstep c hc with hc | ⟨hread, hexpires⟩
    · exact ⟨(h.calls c hc).1, hmono _ (h.calls c hc).2⟩
    · exact ⟨hexpires, hnew hread⟩
  · rw [httl]
    rcases List.mem_append.mp he with he | he
    · exact ⟨(h.accesses e he p hp).1, hmono _ (h.accesses e he p hp).2⟩
    · rw [List.mem_singleton.mp he] at hp ⊢
      refine ⟨rfl, ?_⟩
      rcases access_cases hp with hread | ⟨i, c, -, hc, -, hnow⟩
      · exact hnew hread
      · exact hmono _ (hnow ▸ (h.calls c (List.mem_of_getElem? hc)).2)

theorem accessed_append : Accessed (hist ++ [(s, a)]) k t ↔
    access s a = some (k, t) ∨ Accessed hist k t ∧ s.cache.has k = true := by
  constructor
  · rintro ⟨head, e, tail, hsplit, hfound, htail⟩
    rcases List.eq_nil_or_concat' tail with rfl | ⟨tail, e', rfl⟩
    · obtain ⟨-, hlast⟩ := List.append_inj' hsplit rfl
      cases hlast
      exact .inl hfound
    · have hsplit' : hist ++ [(s, a)] = (head ++ e :: tail) ++ [e'] := by
        rw [hsplit, List.append_assoc, List.cons_append]
      obtain ⟨hhist, hlast⟩ := List.append_inj' hsplit' rfl
      cases hlast
      exact .inr ⟨⟨head, e, tail, hhist, hfound,
        fun e he => htail e (List.mem_append_left _ he)⟩,
        htail _ (List.mem_append_right _ List.mem_cons_self)⟩
  · rintro (hfound | ⟨⟨head, e, tail, rfl, hfound, htail⟩, hhas⟩)
    · exact ⟨hist, (s, a), [], rfl, hfound, by simp⟩
    · refine ⟨head, e, tail ++ [(s, a)], by simp, hfound, fun e' he' => ?_⟩
      rcases List.mem_append.mp he' with he' | he'
      · exact htail e' he'
      · rw [List.mem_singleton.mp he']
        exact hhas

/-- The time of an item is that of the latest access since its key came into the cache. -/
def Tracked (hist : List (System V × Action V)) (s : System V) : Prop :=
  ∀ k i, s.cache.items.get k = some i → ∃ t, Accessed hist k t ∧
    i.expires = int64 (t + s.cache.ttl) ∧ ∀ t', Accessed hist k t' → t' ≤ t

theorem latest_access (hinv : Inv hist s) (hclock : NonDecreasing (hist ++ [(s, a)]))
    (hovertaken : ¬Overtaken hist s a) (ha : access s a = some (k, t))
    (hhas : s.cache.has k = true) {t' : Int} (ht' : Accessed hist k t') : t' ≤ t := by
  rcases access_cases ha with hread | ⟨i, c, hstore, hc, rfl, rfl⟩
  · obtain ⟨head, e, tail, rfl, hfound, -⟩ := ht'
    have hmem := (hinv.accesses e (List.mem_append_right _ List.mem_cons_self) _ hfound).2
    rw [NonDecreasing, readings_append, hread, List.pairwise_append] at hclock
    exact hclock.2.2 t' hmem t List.mem_cons_self
  · by_contra hlt
    exact hovertaken ⟨i, c, t', hstore, hc, hhas, ht', lt_of_not_ge hlt⟩

theorem Tracked.other (h : Tracked hist s) {i : LruItem V} (hi : s.cache.items.get k = some i)
    (ha : ∀ t, access s a ≠ some (k, t)) : ∃ t, Accessed (hist ++ [(s, a)]) k t ∧
      i.expires = int64 (t + s.cache.ttl) ∧ ∀ t', Accessed (hist ++ [(s, a)]) k t' → t' ≤ t := by
  obtain ⟨t, hfound, hexpires, hlatest⟩ := h k i hi
  refine ⟨t, accessed_append.mpr (.inr ⟨hfound, Option.isSome_of_mem hi⟩), hexpires, ?_⟩
  intro t' ht'
  rcases accessed_append.mp ht' with hsame | ⟨hbefore, -⟩
  · exact absurd hsame (ha t')
  · exact hlatest t' hbefore

theorem Tracked.step (h : Tracked hist s) (hinv : Inv hist s)
    (hclock : NonDecreasing (hist ++ [(s, a)])) (hovertaken : ¬Overtaken hist s a)
    (hstep : step s a = some s') : Tracked (hist ++ [(s, a)]) s' := by
  intro k i hi
  rw [ttl_step hstep]
  rcases effect_of_step (fun c hc => (hinv.calls c hc).1) hstep with
    ⟨k', t, v, ha, hitems⟩ | ⟨ha, hitems⟩
  · rw [hitems, GoMap.get_set] at hi
    split at hi
    · next hk =>
      subst hk
      cases hi
      refine ⟨t, accessed_append.mpr (.inl ha), rfl, fun t' ht' => ?_⟩
      rcases accessed_append.mp ht' with hsame | ⟨hbefore, hhas⟩
      · cases ha.symm.trans hsame
        exact le_rfl
      · exact latest_access hinv hclock hovertaken ha hhas hbefore
    · next hk =>
      refine h.other hi fun t' hsame => ?_
      cases ha.symm.trans hsame
      exact hk rfl
  · refine h.other (hitems k i hi) fun t' hsame => ?_
    cases ha.symm.trans hsame

theorem notOvertaken_append : NotOvertaken (hist ++ [(s, a)]) ↔
    NotOvertaken hist ∧ ¬Overtaken hist s a := by
  unfold NotOvertaken
  simp only [List.prefix_concat_iff]
  constructor
  · exact fun h => ⟨fun head e hpre => h head e (.inr hpre), h hist (s, a) (.inl rfl)⟩
  · rintro ⟨hhist, hlast⟩ head e (heq | hpre)
    · obtain ⟨rfl, he⟩ := List.append_inj' heq rfl
      cases he
      exact hlast
    · exact hhist head e hpre

theorem NotOvertaken.of_part {seg : List (System V × Action V)} (h : NotOvertaken hist)
    (hseg : seg <+: hist) : NotOvertaken seg := fun head e hpre => h head e (hpre.trans hseg)

theorem NonDecreasing.of_part {seg : List (System V × Action V)} (h : NonDecreasing hist)
    (hseg : seg <+: hist) : NonDecreasing seg :=
  h.sublist (hseg.sublist.filterMap _)

theorem NonDecreasing.init (h : NonDecreasing (hist ++ [(s, a)])) : NonDecreasing hist :=
  h.of_part (List.prefix_append _ _)

theorem SameWindow.of_part {seg : List (System V × Action V)} (h : SameWindow hist)
    (hseg : seg <+: hist) : SameWindow seg := by
  obtain ⟨d, hd⟩ := h
  exact ⟨d, fun e he => hd e (hseg.subset he)⟩

section Runs

variable {maxItemCount : ℕ} {ttlSeconds : Int}

theorem tracked_run (run : Run step ⟨newLruCache maxItemCount ttlSeconds, []⟩ hist s) :
    Inv hist s ∧ (NonDecreasing hist → NotOvertaken hist → Tracked hist s) := by
  refine run.history_of (C := fun _ _ => True) (J := fun hist s =>
    Inv hist s ∧ (NonDecreasing hist → NotOvertaken hist → Tracked hist s))
    (fun hist s a s' _ hs _ hstep => ?_) (fun _ _ => trivial) ?_
  · refine ⟨hs.1.step hstep, fun hclock hovertaken => ?_⟩
    obtain ⟨hhist, hlast⟩ := notOvertaken_append.mp hovertaken
    exact (hs.2 hclock.init hhist).step hs.1 hclock hlast hstep
  · refine ⟨⟨by simp, by simp⟩, fun _ _ k i hi => ?_⟩
    cases (GoMap.get_empty k).symm.trans hi

theorem SameWindow.exists_offset (h : SameWindow hist) (hinv : Inv hist s) :
    ∃ d, ∀ k t, (∃ e ∈ hist, access e.1 e.2 = some (k, t)) →
      int64 (t + s.cache.ttl) = t + s.cache.ttl - d := by
  obtain ⟨d, hd⟩ := h
  refine ⟨d, fun k t ⟨e, he, hfound⟩ => ?_⟩
  have hsum := hd e he _ hfound
  rwa [(hinv.accesses e he _ hfound).1] at hsum

theorem Accessed.exists_mem (h : Accessed hist k t) :
    ∃ e ∈ hist, access e.1 e.2 = some (k, t) := by
  obtain ⟨head, e, tail, rfl, hfound, -⟩ := h
  exact ⟨e, List.mem_append_right _ List.mem_cons_self, hfound⟩

/-- A step that is not overtaken sets no time back. -/
theorem neverBack_of_notOvertaken
    (run : Run step ⟨newLruCache maxItemCount ttlSeconds, []⟩ hist s)
    (hclock : NonDecreasing hist) (hwindow : SameWindow hist) (h : NotOvertaken hist) :
    NeverBack hist := by
  intro e he s' hstep k i i' hi hi'
  obtain ⟨head, u, hpre, hrun, -⟩ := run.at_mem he
  have hclock' : NonDecreasing (head ++ [e]) := hclock.of_part hpre
  obtain ⟨hhead, hlast⟩ := notOvertaken_append.mp (h.of_part hpre)
  obtain ⟨hinv, htracked⟩ := tracked_run hrun
  obtain ⟨t, hfound, hexpires, -⟩ := htracked hclock'.init hhead k i hi
  obtain ⟨d, hd⟩ := (hwindow.of_part hpre).exists_offset (hinv.step hstep)
  rw [ttl_step hstep] at hd
  rcases effect_of_step (fun c hc => (hinv.calls c hc).1) hstep with
    ⟨k', t', v, ha, hitems⟩ | ⟨-, hitems⟩
  · rw [hitems, GoMap.get_set] at hi'
    split at hi'
    · next hk =>
      subst hk
      cases hi'
      have hle := latest_access hinv hclock' hlast ha (Option.isSome_of_mem hi) hfound
      have hbefore := hd _ _
        (accessed_append.mpr (.inr ⟨hfound, Option.isSome_of_mem hi⟩)).exists_mem
      have hafter := hd _ _ ⟨e, List.mem_append_right _ List.mem_cons_self, ha⟩
      dsimp only
      omega
    · cases hi.symm.trans hi'
      exact le_rfl
  · cases hi.symm.trans (hitems k i' hi')
    exact le_rfl

theorem not_overtaken_of_neverBack (hinv : Inv hist s) (htracked : Tracked hist s)
    (hwindow : SameWindow (hist ++ [(s, a)])) (hback : NeverBack (hist ++ [(s, a)]))
    (hstep : step s a = some s') : ¬Overtaken hist s a := by
  rintro ⟨i, c, t, rfl, hc, hhas, hfound, hlt⟩
  obtain ⟨item, hitem⟩ := Option.isSome_iff_exists.mp hhas
  obtain ⟨t', hfound', hexpires, hlatest⟩ := htracked c.key item hitem
  obtain ⟨c', hc', rfl⟩ := step_store hstep
  cases hc.symm.trans hc'
  have hput : (store s.cache c).items.get c.key = some c.item := by
    rw [store, (sameItems_count _).items]
    exact (GoMap.get_set ..).trans (if_pos rfl)
  have hle := hback _ (List.mem_append_right _ List.mem_cons_self) _ hstep c.key item c.item hitem
    hput
  rw [hexpires, (hinv.calls c (List.mem_of_getElem? hc)).1] at hle
  obtain ⟨d, hd⟩ := hwindow.exists_offset (hinv.step hstep)
  rw [ttl_step hstep] at hd
  have ha : access s (.store i) = some (c.key, c.now) := by rw [access, hc, Option.map_some]
  have hbefore := hd _ _ (accessed_append.mpr (.inr ⟨hfound', hhas⟩)).exists_mem
  have hafter := hd _ _ ⟨_, List.mem_append_right _ List.mem_cons_self, ha⟩
  have hnot := hlatest t hfound
  omega

theorem notOvertaken_of_neverBack
    (run : Run step ⟨newLruCache maxItemCount ttlSeconds, []⟩ hist s)
    (hclock : NonDecreasing hist) (hwindow : SameWindow hist) (h : NeverBack hist) :
    NotOvertaken hist := by
  refine run.history_of (C := fun _ _ => True) (J := fun hist _ =>
    NonDecreasing hist → SameWindow hist → NeverBack hist → NotOvertaken hist)
    (fun hist s a s' hrun hs _ hstep hclock hwindow hback => ?_) (fun _ _ => trivial) ?_
    hclock hwindow h
  · have hback' : NeverBack hist := fun e he => hback e (List.mem_append_left _ he)
    have hhist := hs hclock.init (hwindow.of_part (List.prefix_append _ _)) hback'
    obtain ⟨hinv, htracked⟩ := tracked_run hrun
    exact notOvertaken_append.mpr ⟨hhist, not_overtaken_of_neverBack hinv
      (htracked hclock.init hhist) hwindow hback hstep⟩
  · intro _ _ _ head e hpre
    simp at hpre

theorem evictsOldest_of_notOvertaken
    (run : Run step ⟨newLruCache maxItemCount ttlSeconds, []⟩ hist s)
    (hclock : NonDecreasing hist) (hwindow : SameWindow hist) (h : NotOvertaken hist) :
    EvictsOldest hist := by
  intro head s keys now hpre k k' hk hremoved hkept t hfound
  obtain ⟨u, hrun, hstep⟩ := run.at_prefix hpre
  obtain ⟨hkeys, -⟩ := step_gc hstep
  have hhead : head <+: hist := (List.prefix_append _ _).trans hpre
  obtain ⟨hinv, htracked⟩ := tracked_run hrun
  have htracked := htracked (hclock.of_part hhead) (h.of_part hhead)
  obtain ⟨d, hd⟩ := (hwindow.of_part hhead).exists_offset hinv
  have hk' : s.cache.has k' = true := by
    obtain ⟨front, rest, -, -, hgc⟩ := gc_eq now hkeys
    rw [hgc] at hkept
    exact (has_removeAll.mp hkept).2
  obtain ⟨i, hi⟩ := Option.isSome_iff_exists.mp hk
  obtain ⟨i', hi'⟩ := Option.isSome_iff_exists.mp hk'
  obtain ⟨t₁, hfound₁, hexpires, hlatest⟩ := htracked k i hi
  obtain ⟨t₂, hfound₂, hexpires', -⟩ := htracked k' i' hi'
  refine ⟨t₂, hfound₂, (hlatest t hfound).trans ?_⟩
  have horder := gc_order hkeys hk hremoved hkept
  rw [LruCache.expires, LruCache.expires, hi, hi'] at horder
  have hsum : i.expires ≤ i'.expires := horder
  rw [hexpires, hexpires', hd _ _ hfound₁.exists_mem, hd _ _ hfound₂.exists_mem] at hsum
  omega

/-- In a run no time goes back when and only when no `Set` is overtaken, and then a collection
removes the keys of the earliest accesses. -/
theorem neverBack_iff (run : Run step ⟨newLruCache maxItemCount ttlSeconds, []⟩ hist s)
    (hclock : NonDecreasing hist) (hwindow : SameWindow hist) :
    (NeverBack hist ↔ NotOvertaken hist) ∧ (NotOvertaken hist → EvictsOldest hist) :=
  ⟨⟨notOvertaken_of_neverBack run hclock hwindow, neverBack_of_notOvertaken run hclock hwindow⟩,
    evictsOldest_of_notOvertaken run hclock hwindow⟩

/-- Two calls of `Set` for one key, and a `Get` after them. -/
def sideBySide : List (Action String) :=
  [.prepare "a" (some ⟨"1", false⟩) 1, .prepare "a" (some ⟨"2", false⟩) 2, .store 0, .store 0,
    .get "a" 3]

def start : System String := ⟨newLruCache 1 60, []⟩

theorem neverBack_iff_sideBySide :
    (NeverBack (history step start sideBySide) ↔ NotOvertaken (history step start sideBySide)) ∧
      (NotOvertaken (history step start sideBySide) →
        EvictsOldest (history step start sideBySide)) := by
  refine neverBack_iff (s := final step start sideBySide rfl)
    (run_history (Option.some_get _).symm) ?_ ?_
  · unfold NonDecreasing
    decide
  · refine ⟨0, ?_⟩
    decide

/-- A `Set` reads the clock, and before it has the lock a `Get` puts off the time of its key. -/
def overtaken : List (Action String) :=
  [.prepare "a" (some ⟨"1", false⟩) 1, .store 0, .prepare "a" (some ⟨"2", false⟩) 2, .get "a" 4,
    .store 0]

theorem overtaken_goes_back :
    Run step start (history step start overtaken) (final step start overtaken rfl) ∧
      NonDecreasing (history step start overtaken) ∧
        ¬NeverBack (history step start overtaken) := by
  refine ⟨run_history (Option.some_get _).symm, ?_, fun h => ?_⟩
  · unfold NonDecreasing
    decide
  · have hlast : (final step start (overtaken.take 4) rfl, .store 0) ∈
        history step start overtaken := .tail _ (.tail _ (.tail _ (.tail _ (.head _))))
    have hle := h _ hlast _ rfl "a" ⟨int64 (4 + 60000000000), ⟨"1", false⟩⟩
      ⟨int64 (2 + 60000000000), ⟨"2", false⟩⟩ rfl rfl
    exact absurd hle (by decide)

end Runs

end GoraddServe.CacheInterleaving
