import GoraddServe.CacheCollection

/-!
# The values that leave the cache

A collection tells the values that it removes. A `Set` for a key that is there replaces the value
under it, and that value is told nothing, so a value can leave the cache without its `Removed`
being called.
-/
namespace GoraddServe.CacheRemovals
open GoMaps LabelledRuns ItemCache CacheEviction CacheCollection

variable {V : Type} {o o' : LruCache V} {hist : List (LruCache V × Label V)} {r : Value V}

def Stored (o : LruCache V) (r : Value V) : Prop := ∃ k i, o.items.get k = some i ∧ i.value = r

def WasSet (hist : List (LruCache V × Label V)) (r : Value V) : Prop :=
  ∃ e ∈ hist, ∃ k now, e.2 = .set k (some r) now

/-- Every value that has left the cache has been told. -/
def Told (hist : List (LruCache V × Label V)) (o : LruCache V) : Prop :=
  ∀ r : Value V, r.remover = true → WasSet hist r → ¬Stored o r → r ∈ o.removedCalls

/-- The step replaces a value that has not been told and is under no other key. -/
def Loses (o : LruCache V) (a : Label V) : Prop :=
  ∃ k v now i, a = .set k (some v) now ∧ o.items.get k = some i ∧ i.value.remover = true ∧
    i.value ≠ v ∧ i.value ∉ o.removedCalls ∧
      ∀ k' i', k' ≠ k → o.items.get k' = some i' → i'.value ≠ i.value

/-- The step tells the values of items, each when its item has been deleted. -/
def TellsRemoved (o o' : LruCache V) : Prop :=
  ∃ removed : List String, o'.removedCalls = o.removedCalls ++ removed.filterMap (remover o) ∧
    ∀ told k rest, removed = told ++ k :: rest → (removeAll (told ++ [k]) o).has k ≠ true ∧
      o'.has k ≠ true

theorem wasSet_append {e : LruCache V × Label V} :
    WasSet (hist ++ [e]) r ↔ WasSet hist r ∨ ∃ k now, e.2 = .set k (some r) now := by
  unfold WasSet
  simp only [List.mem_append, List.mem_singleton, or_and_right, exists_or, exists_eq_left]

theorem removedCalls_count (o : LruCache V) : o.count.removedCalls = o.removedCalls := by
  obtain ⟨setCounter, gcHappened, spawned, hcount⟩ := count_eq o
  rw [hcount]

theorem stored_put {k : String} {v : Value V} {now : Int} :
    Stored (o.put k v now) r ↔ r = v ∨ ∃ k' i, k' ≠ k ∧ o.items.get k' = some i ∧ i.value = r := by
  unfold Stored LruCache.put
  simp only [GoMap.get_set]
  constructor
  · rintro ⟨k', i, hi, rfl⟩
    split at hi
    · cases hi
      exact .inl rfl
    · next hk => exact .inr ⟨k', i, hk, hi, rfl⟩
  · rintro (rfl | ⟨k', i, hk, hi, rfl⟩)
    · exact ⟨k, _, if_pos rfl, rfl⟩
    · exact ⟨k', i, (if_neg hk).trans hi, rfl⟩

theorem stored_set {k : String} {v : Value V} {now : Int} :
    Stored (o.put k v now).count r ↔
      r = v ∨ ∃ k' i, k' ≠ k ∧ o.items.get k' = some i ∧ i.value = r := by
  have hcount : Stored (o.put k v now).count r ↔ Stored (o.put k v now) r := by
    rw [Stored, (sameItems_count (o.put k v now)).items, Stored]
  exact hcount.trans stored_put

/-- `Get` changes the time of an item and leaves its value. -/
theorem stored_get {k : String} {now : Int} : Stored (o.get k now).2 r ↔ Stored o r := by
  rw [LruCache.get]
  cases h : o.items.get k with
  | none => rfl
  | some i =>
    rw [stored_put]
    constructor
    · rintro (rfl | ⟨k', i', -, hi', rfl⟩)
      · exact ⟨k, i, h, rfl⟩
      · exact ⟨k', i', hi', rfl⟩
    · rintro ⟨k', i', hi', rfl⟩
      by_cases hk : k' = k
      · subst hk
        cases h.symm.trans hi'
        exact .inl rfl
      · exact .inr ⟨k', i', hk, hi', rfl⟩

theorem removedCalls_get (o : LruCache V) (k : String) (now : Int) :
    (o.get k now).2.removedCalls = o.removedCalls := by
  rw [LruCache.get]
  cases o.items.get k with
  | none => rfl
  | some i => rfl

theorem stored_gc {keys : List String} {now : Int} (hkeys : o.Sorted keys)
    (hr : r.remover = true) (h : Stored o r) :
    Stored (o.gc keys now) r ∨ r ∈ (o.gc keys now).removedCalls := by
  obtain ⟨k, i, hi, rfl⟩ := h
  obtain ⟨front, rest, hsplit, -, hgc⟩ := gc_eq now hkeys
  have hnodup : front.Nodup := (List.nodup_append.mp (hsplit ▸ hkeys.1.1)).1
  rw [hgc]
  by_cases hk : k ∈ front
  · refine .inr ?_
    show i.value ∈ (removeAll front o).removedCalls
    rw [removedCalls_removeAll hnodup]
    refine List.mem_append_right _ (List.mem_filterMap.mpr ⟨k, hk, ?_⟩)
    rw [remover, hi, Option.bind_some, if_pos hr]
  · have hkept : (removeAll front o).items.has k = true :=
      has_removeAll.mpr ⟨hk, Option.isSome_of_mem hi⟩
    obtain ⟨i', hi'⟩ := Option.isSome_iff_exists.mp hkept
    cases hi.symm.trans (get_removeAll hi')
    exact .inl ⟨k, i, hi', rfl⟩

theorem tellsRemoved_step {a : Label V} (h : step o a = some o') :
    TellsRemoved o o' := by
  have hnone : ∀ {o' : LruCache V}, o'.removedCalls = o.removedCalls → TellsRemoved o o' := by
    intro o' hsame
    refine ⟨[], by simpa using hsame, fun told k rest h => ?_⟩
    simp at h
  cases a with
  | set key v now =>
    obtain ⟨value, -, -, rfl⟩ := step_set.mp h
    exact hnone (removedCalls_count _)
  | get key now =>
    cases h
    exact hnone (removedCalls_get o key now)
  | has key =>
    cases h
    exact hnone rfl
  | setGCInterval interval =>
    cases h
    exact hnone rfl
  | gc keys now =>
    obtain ⟨⟨-, hkeys⟩, rfl⟩ := step_gc.mp h
    obtain ⟨front, rest, hsplit, -, hgc⟩ := gc_eq now hkeys
    have hnodup : front.Nodup := (List.nodup_append.mp (hsplit ▸ hkeys.1.1)).1
    rw [hgc]
    refine ⟨front, removedCalls_removeAll hnodup o, ?_⟩
    rintro told k rest rfl
    refine ⟨fun hhas => ?_, fun hhas => ?_⟩
    · exact (has_removeAll.mp hhas).1 (List.mem_append_right _ List.mem_cons_self)
    · exact (has_removeAll.mp hhas).1 (List.mem_append_right _ List.mem_cons_self)

theorem TellsRemoved.mem (h : TellsRemoved o o') (hr : r ∈ o.removedCalls) :
    r ∈ o'.removedCalls := by
  obtain ⟨removed, hcalls, -⟩ := h
  exact hcalls ▸ List.mem_append_left _ hr

/-- A value that is taken away by a step that does not lose it is told. -/
theorem stored_step {a : Label V} (h : step o a = some o') (hlost : ¬Loses o a)
    (hr : r.remover = true) (hstored : Stored o r) : Stored o' r ∨ r ∈ o'.removedCalls := by
  cases a with
  | set key v now =>
    obtain ⟨value, rfl, -, rfl⟩ := step_set.mp h
    rw [stored_set, removedCalls_count]
    obtain ⟨k, i, hi, rfl⟩ := hstored
    by_contra hnot
    obtain ⟨⟨hvalue, hother⟩, hcalls⟩ :
        (i.value ≠ value ∧ ¬∃ k' i', k' ≠ key ∧ o.items.get k' = some i' ∧ i'.value = i.value) ∧
          i.value ∉ o.removedCalls := by
      rwa [not_or, not_or] at hnot
    have hk : k = key := by
      by_contra hk
      exact hother ⟨k, i, hk, hi, rfl⟩
    subst hk
    exact hlost ⟨k, value, now, i, rfl, hi, hr, hvalue, hcalls,
      fun k' i' hk' hi' heq => hother ⟨k', i', hk', hi', heq⟩⟩
  | get key now =>
    cases h
    exact .inl (stored_get.mpr hstored)
  | has key =>
    cases h
    exact .inl hstored
  | setGCInterval interval =>
    cases h
    exact .inl hstored
  | gc keys now =>
    obtain ⟨⟨-, hkeys⟩, rfl⟩ := step_gc.mp h
    exact stored_gc hkeys hr hstored

/-- A value that is stored after a step was stored before it, or the step has set it. -/
theorem stored_of_step {a : Label V} (h : step o a = some o') (hstored : Stored o' r) :
    Stored o r ∨ ∃ k now, a = .set k (some r) now := by
  cases a with
  | set key v now =>
    obtain ⟨value, rfl, -, rfl⟩ := step_set.mp h
    rcases stored_set.mp hstored with rfl | ⟨k', i, -, hi, hvalue⟩
    · exact .inr ⟨key, now, rfl⟩
    · exact .inl ⟨k', i, hi, hvalue⟩
  | get key now =>
    cases h
    exact .inl (stored_get.mp hstored)
  | has key =>
    cases h
    exact .inl hstored
  | setGCInterval interval =>
    cases h
    exact .inl hstored
  | gc keys now =>
    obtain ⟨⟨-, hkeys⟩, rfl⟩ := step_gc.mp h
    obtain ⟨front, rest, -, -, hgc⟩ := gc_eq now hkeys
    obtain ⟨k, i, hi, hvalue⟩ := hstored
    rw [hgc] at hi
    exact .inl ⟨k, i, get_removeAll hi, hvalue⟩

theorem stored_of_set {k : String} {now : Int} (h : step o (.set k (some r) now) = some o') :
    Stored o' r := by
  obtain ⟨value, hvalue, -, rfl⟩ := step_set.mp h
  cases hvalue
  exact stored_set.mpr (.inl rfl)

section Runs

variable {maxItemCount : ℕ} {ttlSeconds : Int}

theorem Told.step {a : Label V} (h : Told hist o) (hstep : ItemCache.step o a = some o')
    (hlost : ¬Loses o a) : Told (hist ++ [(o, a)]) o' := by
  intro r hr hset hstored
  rcases wasSet_append.mp hset with hset | ⟨k, now, rfl⟩
  · by_cases hbefore : Stored o r
    · exact (stored_step hstep hlost hr hbefore).resolve_left hstored
    · exact (tellsRemoved_step hstep).mem (h r hr hset hbefore)
  · exact absurd (stored_of_set hstep) hstored

theorem wasSet_of_stored (run : Run step (newLruCache maxItemCount ttlSeconds) hist o)
    (h : Stored o r) : WasSet hist r := by
  refine run.history_of (C := fun _ _ => True) (J := fun hist o => Stored o r → WasSet hist r)
    (fun hist o a o' _ ho _ hstep hstored => ?_) (fun _ _ => trivial) ?_ h
  · rw [wasSet_append]
    exact (stored_of_step hstep hstored).imp_left ho
  · rintro ⟨k, i, hi, -⟩
    cases (GoMap.get_empty k).symm.trans hi

/-- Every value that leaves the cache is told in every state of a run when and only when no `Set`
of the run loses one. What is told has been deleted, in every run. -/
theorem told_iff (run : Run step (newLruCache maxItemCount ttlSeconds) hist o) :
    ((∀ seg o', seg <+: hist → Run step (newLruCache maxItemCount ttlSeconds) seg o' →
        Told seg o') ↔ ∀ e ∈ hist, ¬Loses e.1 e.2) ∧
      ∀ e ∈ hist, ∀ o', step e.1 e.2 = some o' → TellsRemoved e.1 o' := by
  refine ⟨⟨fun h e he hloses => ?_, fun h seg o' hseg hrun => ?_⟩,
    fun e _ o' hstep => tellsRemoved_step hstep⟩
  · obtain ⟨head, o', hpre, hrun, hstep⟩ := run.at_mem he
    obtain ⟨k, v, now, i, ha, hi, hr, hvalue, hcalls, hother⟩ := hloses
    have htold := h _ o' hpre (hrun.next hstep) i.value hr
      (wasSet_append.mpr (.inl (wasSet_of_stored hrun ⟨k, i, hi, rfl⟩)))
    rw [ha] at hstep
    obtain ⟨value, hset, -, rfl⟩ := step_set.mp hstep
    cases hset
    rw [removedCalls_count, stored_set] at htold
    refine hcalls (htold ?_)
    rintro (hsame | ⟨k', i', hk', hi', hsame⟩)
    · exact hvalue hsame
    · exact hother k' i' hk' hi' hsame
  · refine hrun.history_of (C := fun o a => ¬Loses o a) (J := Told)
      (fun hist o a o' _ ho hlost hstep => ho.step hstep hlost)
      (fun e he => h e (hseg.subset he)) ?_
    rintro r - ⟨e, he, -⟩
    cases he

/-- A value under two keys is replaced under one of them, and then the other one is collected. -/
def shared : List (Label String) :=
  [.setGCInterval 1, .set "a" (some ⟨"1", true⟩) 1, .set "b" (some ⟨"1", true⟩) 2,
    .set "b" (some ⟨"2", false⟩) 3, .gc ["a", "b"] 4]

theorem told_iff_shared :
    Told (history step (newLruCache 1 60) shared)
      (final step (newLruCache 1 60) shared rfl) := by
  have run : Run step (newLruCache 1 60) (history step (newLruCache 1 60) shared)
      (final step (newLruCache 1 60) shared rfl) := run_history (Option.some_get _).symm
  refine (told_iff run).1.mpr ?_ _ _ List.prefix_rfl run
  rintro e he ⟨k, v, now, i, ha, hi, hr, hvalue, hcalls, hother⟩
  rcases List.mem_cons.mp he with rfl | he
  · cases ha
  rcases List.mem_cons.mp he with rfl | he
  · cases ha
    cases hi
  rcases List.mem_cons.mp he with rfl | he
  · cases ha
    cases hi
  rcases List.mem_cons.mp he with rfl | he
  · cases ha
    cases hi
    exact hother "a" ⟨_, ⟨"1", true⟩⟩ (by decide) rfl rfl
  rcases List.mem_cons.mp he with rfl | he
  · cases ha
  · cases he

def replaced : List (Label String) :=
  [.set "a" (some ⟨"1", true⟩) 1, .set "a" (some ⟨"2", true⟩) 2]

theorem replaced_not_told :
    Run step (newLruCache 2 60) (history step (newLruCache 2 60) replaced)
        (final step (newLruCache 2 60) replaced rfl) ∧
      ¬Told (history step (newLruCache 2 60) replaced)
        (final step (newLruCache 2 60) replaced rfl) := by
  refine ⟨run_history (Option.some_get _).symm, fun h => ?_⟩
  have htold := h ⟨"1", true⟩ rfl ⟨_, List.mem_cons_self, "a", 1, rfl⟩ ?_
  · exact absurd htold List.not_mem_nil
  · intro hstored
    have hlast : Stored (((newLruCache 2 60).put "a" ⟨"1", true⟩ 1).count.put "a"
        ⟨"2", true⟩ 2).count ⟨"1", true⟩ := hstored
    rcases stored_set.mp hlast with heq | ⟨k, i, hk, hi, -⟩
    · exact absurd (congrArg Value.data heq) (by decide)
    · have hi' : (((newLruCache 2 60).put "a" ⟨"1", true⟩ 1).items.get k) = some i := hi
      rw [LruCache.put, GoMap.get_set, if_neg hk] at hi'
      cases (GoMap.get_empty k).symm.trans hi'

end Runs

end GoraddServe.CacheRemovals
