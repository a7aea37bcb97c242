import GoraddServe.CacheEviction

/-!
# The effect of one collection

The sorted keys are those of the expired items and then the others. A collection removes the
former, and as many of the latter from the front as there are too many. Each item that it removes
is told so, and what it keeps stays as it is.
-/
namespace GoraddServe.CacheCollection
open GoMaps ItemCache

variable {V : Type} {o : LruCache V} {keys : List String} {now : Int} {k : String}

/-- The value under a key when it has the method `Removed`. -/
def remover (o : LruCache V) (k : String) : Option (Value V) :=
  (o.items.get k).bind fun i => if i.value.remover then some i.value else none

theorem removedCalls_remove (o : LruCache V) (k : String) :
    (o.remove k).removedCalls = o.removedCalls ++ (remover o k).toList := by
  rw [LruCache.remove, remover]
  cases o.items.get k with
  | none => rfl
  | some i => cases h : i.value.remover <;> simp [h]

theorem get_remove_of_ne {k' : String} (h : k' ≠ k) :
    (o.remove k).items.get k' = o.items.get k' := by
  rw [LruCache.remove, GoMap.get_delete, if_neg h]

theorem expires_remove_of_ne {k' : String} (h : k' ≠ k) :
    (o.remove k).expires k' = o.expires k' := by
  rw [LruCache.expires, get_remove_of_ne h, LruCache.expires]

theorem has_remove_of_mem (hk : k ∉ keys) (hhas : ∀ k' ∈ k :: keys, o.has k' = true) :
    ∀ k' ∈ keys, (o.remove k).has k' = true := by
  intro k' hk'
  have hne : k' ≠ k := fun h => hk (h ▸ hk')
  exact (GoMap.has_delete ..).mpr ⟨hne, hhas k' (List.mem_cons_of_mem k hk')⟩

theorem removedCalls_removeAll (hnodup : keys.Nodup) (o : LruCache V) :
    (removeAll keys o).removedCalls = o.removedCalls ++ keys.filterMap (remover o) := by
  rw [removeAll]
  induction keys generalizing o with
  | nil => exact (List.append_nil _).symm
  | cons k keys ih =>
    obtain ⟨hk, hkeys⟩ := List.nodup_cons.mp hnodup
    have hsame : keys.filterMap (remover (o.remove k)) = keys.filterMap (remover o) := by
      refine List.filterMap_congr fun k' hk' => ?_
      have hne : k' ≠ k := fun h => hk (h ▸ hk')
      rw [remover, get_remove_of_ne hne, remover]
    rw [List.foldl_cons, ih hkeys, removedCalls_remove, hsame, List.append_assoc]
    cases h : remover o k with
    | none => rw [List.filterMap_cons_none h, Option.toList_none, List.nil_append]
    | some v => rw [List.filterMap_cons_some h, Option.toList_some, List.singleton_append]

theorem len_remove (h : o.has k = true) : (o.remove k).items.len + 1 = o.items.len := by
  have hmem : k ∈ o.items.keys := GoMap.mem_keys_iff.mpr h
  have hkeys : (o.remove k).items.keys = o.items.keys.erase k := by
    refine Finset.ext fun k' => ?_
    rw [GoMap.mem_keys_iff, Finset.mem_erase, GoMap.mem_keys_iff]
    exact GoMap.has_delete ..
  rw [GoMap.len, hkeys]
  exact Finset.card_erase_add_one hmem

theorem len_removeAll (hnodup : keys.Nodup) (hhas : ∀ k ∈ keys, o.has k = true) :
    (removeAll keys o).items.len + keys.length = o.items.len := by
  rw [removeAll]
  induction keys generalizing o with
  | nil => rfl
  | cons k keys ih =>
    obtain ⟨hk, hkeys⟩ := List.nodup_cons.mp hnodup
    have hrest := ih hkeys (has_remove_of_mem hk hhas)
    have hone := len_remove (hhas k List.mem_cons_self)
    rw [List.foldl_cons, List.length_cons]
    omega

/-- The first loop stops at the first item that has not expired. -/
theorem expireLoop_stops (now : Int) (hnodup : keys.Nodup) (o : LruCache V) : ∃ front rest,
    keys = front ++ rest ∧ (LruCache.expireLoop now keys o).2 = removeAll front o ∧
      ((LruCache.expireLoop now keys o).1 = rest ∨ rest = []) ∧
      (∀ k ∈ front, o.expires k < now) ∧ ∀ k ∈ rest.head?, now ≤ o.expires k := by
  induction keys generalizing o with
  | nil => exact ⟨[], [], rfl, rfl, .inl rfl, by simp, by simp⟩
  | cons k keys ih =>
    obtain ⟨hk, hkeys⟩ := List.nodup_cons.mp hnodup
    rw [LruCache.expireLoop]
    by_cases hexpired : o.expires k < now
    · rw [if_pos hexpired]
      by_cases hempty : keys = []
      · rw [if_pos hempty, hempty]
        exact ⟨[k], [], rfl, rfl, .inr rfl, by simpa using hexpired, by simp⟩
      · rw [if_neg hempty]
        obtain ⟨front, rest, hsplit, hloop, hrest, hfront, hhead⟩ := ih hkeys (o.remove k)
        have hsame : ∀ k' ∈ front ++ rest, (o.remove k).expires k' = o.expires k' := fun k' hk' =>
          expires_remove_of_ne fun h => hk (by rw [hsplit, ← h]; exact hk')
        refine ⟨k :: front, rest, congrArg (k :: ·) hsplit, hloop, hrest, fun k' hk' => ?_,
          fun k' hk' => ?_⟩
        · rcases List.mem_cons.mp hk' with rfl | hk'
          · exact hexpired
          · exact hsame k' (List.mem_append_left _ hk') ▸ hfront k' hk'
        · exact hsame k' (List.mem_append_right _ (List.mem_of_mem_head? hk')) ▸ hhead k' hk'
    · rw [if_neg hexpired]
      exact ⟨[], k :: keys, rfl, rfl, .inl rfl, by simp, by simpa using hexpired⟩

/-- The second loop stops as soon as the items are not too many. -/
theorem evictLoop_take (hnodup : keys.Nodup) (hhas : ∀ k ∈ keys, o.has k = true)
    (hlarge : o.maxItemCount < o.items.len) :
    LruCache.evictLoop keys o = removeAll (keys.take (o.items.len - o.maxItemCount)) o := by
  induction keys generalizing o with
  | nil => rw [List.take_nil, LruCache.evictLoop, removeAll, List.foldl_nil]
  | cons k keys ih =>
    obtain ⟨hk, hkeys⟩ := List.nodup_cons.mp hnodup
    have hone := len_remove (hhas k List.mem_cons_self)
    have hmax : (o.remove k).maxItemCount = o.maxItemCount := rfl
    rw [LruCache.evictLoop]
    by_cases hsmall : (o.remove k).items.len ≤ (o.remove k).maxItemCount
    · have htake : o.items.len - o.maxItemCount = 1 := by omega
      rw [if_pos hsmall, htake, List.take_succ_cons, List.take_zero]
      rfl
    · have htake : o.items.len - o.maxItemCount =
          (o.remove k).items.len - (o.remove k).maxItemCount + 1 := by omega
      rw [if_neg hsmall, htake, List.take_succ_cons,
        ih hkeys (has_remove_of_mem hk hhas) (Nat.lt_of_not_le hsmall)]
      rfl

def fresh (o : LruCache V) (now : Int) : Finset String :=
  o.items.keys.filter fun k => now ≤ o.expires k

section Keys

variable {front rest : List String}

theorem len_sorted (hkeys : o.Sorted keys) : o.items.len = keys.length := by
  rw [GoMap.len, ← hkeys.1.2, List.toFinset_card_of_nodup hkeys.1.1]

theorem unexpired_of_head (hkeys : o.Sorted (front ++ rest))
    (hhead : ∀ k ∈ rest.head?, now ≤ o.expires k) : ∀ k ∈ rest, now ≤ o.expires k := by
  have hpairwise := (List.pairwise_append.mp hkeys.2).2.1
  cases rest with
  | nil => simp
  | cons k₀ rest =>
    have hfirst : now ≤ o.expires k₀ := hhead k₀ rfl
    intro k hk
    rcases List.mem_cons.mp hk with rfl | hk
    · exact hfirst
    · exact hfirst.trans ((List.pairwise_cons.mp hpairwise).1 k hk)

theorem card_fresh (hkeys : o.Sorted (front ++ rest)) (hfront : ∀ k ∈ front, o.expires k < now)
    (hrest : ∀ k ∈ rest, now ≤ o.expires k) : (fresh o now).card = rest.length := by
  have hfresh : fresh o now = rest.toFinset := by
    refine Finset.ext fun k => ?_
    rw [fresh, Finset.mem_filter, GoMap.mem_keys_iff, List.mem_toFinset]
    constructor
    · rintro ⟨hin, hnow⟩
      refine (List.mem_append.mp ((mem_sorted hkeys).mpr hin)).resolve_left fun h => ?_
      exact absurd hnow (not_le_of_gt (hfront k h))
    · exact fun hk => ⟨(mem_sorted hkeys).mp (List.mem_append_right _ hk), hrest k hk⟩
  rw [hfresh, List.toFinset_card_of_nodup (List.nodup_append.mp hkeys.1.1).2.1]

/-- After the first loop the second one takes the keys that are too many, or does not run. -/
theorem evict_rest (hkeys : o.Sorted (front ++ rest)) {list : List String}
    (hlist : list = rest ∨ rest = []) :
    (if (removeAll front o).items.len > (removeAll front o).maxItemCount then
      LruCache.evictLoop list (removeAll front o) else removeAll front o) =
        removeAll (front ++ rest.take (rest.length - o.maxItemCount)) o := by
  obtain ⟨hnodupF, hnodupR, hdisjoint⟩ := List.nodup_append.mp hkeys.1.1
  have hhas : ∀ k ∈ front ++ rest, o.has k = true := fun k => (mem_sorted hkeys).mp
  have hlen : (removeAll front o).items.len = rest.length := by
    have hfront := len_removeAll hnodupF fun k hk => hhas k (List.mem_append_left _ hk)
    have hall := len_sorted hkeys
    rw [List.length_append] at hall
    omega
  rw [(sameSettings_removeAll front o).maxItemCount, removeAll_append]
  by_cases hlarge : (removeAll front o).items.len > o.maxItemCount
  · have hne : rest ≠ [] := by
      rintro rfl
      rw [hlen] at hlarge
      exact absurd hlarge (Nat.not_lt_zero _)
    have hhasR : ∀ k ∈ rest, (removeAll front o).has k = true := fun k hk =>
      has_removeAll.mpr ⟨fun hk' => hdisjoint k hk' k hk rfl, hhas k (List.mem_append_right _ hk)⟩
    have hlarge' : (removeAll front o).maxItemCount < (removeAll front o).items.len := by
      rwa [(sameSettings_removeAll front o).maxItemCount]
    have htake := evictLoop_take hnodupR hhasR hlarge'
    rw [hlen, (sameSettings_removeAll front o).maxItemCount] at htake
    rw [hlist.resolve_right hne]
    exact (if_pos hlarge).trans htake
  · have htake : rest.length - o.maxItemCount = 0 := by omega
    rw [htake]
    exact if_neg hlarge

end Keys

theorem gc_removes (now : Int) (hkeys : o.Sorted keys) : ∃ front rest,
    keys = front ++ rest ∧ (∀ k ∈ front, o.expires k < now) ∧ (∀ k ∈ rest, now ≤ o.expires k) ∧
      o.gc keys now = { removeAll (front ++ rest.take (rest.length - o.maxItemCount)) o with
        gcHappened := true, collected := o.collected + 1 } := by
  obtain ⟨front, rest, rfl, hloop, hlist, hfront, hhead⟩ := expireLoop_stops now hkeys.1.1 o
  refine ⟨front, rest, rfl, hfront, unexpired_of_head hkeys hhead, ?_⟩
  have hloops := evict_rest hkeys hlist
  rw [← hloop] at hloops
  have hcollected :=
    (sameSettings_removeAll (front ++ rest.take (rest.length - o.maxItemCount)) o).collected
  rw [← hcollected, ← hloops]
  rfl

/-- What a collection does to the items, and whom it tells. -/
structure Collected (o o' : LruCache V) (now : Int) : Prop where
  unexpired : ∀ k, o'.has k = true → now ≤ o'.expires k
  number : o'.items.len = min o.maxItemCount (fresh o now).card
  order : ∀ k k', o.has k = true → o'.has k ≠ true → o'.has k' = true → o.expires k ≤ o.expires k'
  kept : ∀ k i, o'.items.get k = some i → o.items.get k = some i
  told : ∃ removed, Enumerates removed (o.items.keys \ o'.items.keys) ∧
    o'.removedCalls = o.removedCalls ++ removed.filterMap (remover o)

theorem expires_eq {o' : LruCache V} (hhas : o'.has k = true)
    (hkept : ∀ k i, o'.items.get k = some i → o.items.get k = some i) :
    o'.expires k = o.expires k := by
  obtain ⟨i, hi⟩ := Option.isSome_iff_exists.mp hhas
  rw [LruCache.expires, LruCache.expires, hi, hkept k i hi]

/-- The exact effect of one collection. -/
theorem gc_collected {V : Type} (o : LruCache V) (keys : List String) (now : Int)
    (hkeys : o.Sorted keys) : Collected o (o.gc keys now) now := by
  obtain ⟨front, rest, rfl, hfront, hrest, hgc⟩ := gc_removes now hkeys
  have hremoved : ∀ k ∈ front ++ rest.take (rest.length - o.maxItemCount), o.has k = true := by
    intro k hk
    refine (mem_sorted hkeys).mp ?_
    rcases List.mem_append.mp hk with hk | hk
    · exact List.mem_append_left _ hk
    · exact List.mem_append_right _ (List.mem_of_mem_take hk)
  have hnodup : (front ++ rest.take (rest.length - o.maxItemCount)).Nodup :=
    hkeys.1.1.sublist ((List.take_sublist ..).append_left front)
  have hhas : ∀ k, (o.gc (front ++ rest) now).has k = true ↔
      k ∉ front ++ rest.take (rest.length - o.maxItemCount) ∧ o.has k = true := by
    intro k
    rw [hgc]
    exact has_removeAll
  have hkept : ∀ k i, (o.gc (front ++ rest) now).items.get k = some i →
      o.items.get k = some i := by
    intro k i hi
    rw [hgc] at hi
    exact get_removeAll hi
  refine ⟨fun k hk => ?_, ?_, fun k k' => gc_order hkeys, hkept, _, ⟨hnodup, ?_⟩, ?_⟩
  · rw [expires_eq hk hkept]
    obtain ⟨hout, hin⟩ := (hhas k).mp hk
    have hnotFront : k ∉ front := fun h => hout (List.mem_append_left _ h)
    exact hrest k ((List.mem_append.mp ((mem_sorted hkeys).mpr hin)).resolve_left hnotFront)
  · have hlen := len_removeAll hnodup hremoved
    rw [len_sorted hkeys, List.length_append, List.length_append, List.length_take] at hlen
    rw [card_fresh hkeys hfront hrest, hgc]
    show (removeAll (front ++ rest.take (rest.length - o.maxItemCount)) o).items.len = _
    omega
  · refine Finset.ext fun k => ?_
    rw [List.mem_toFinset, Finset.mem_sdiff, GoMap.mem_keys_iff, GoMap.mem_keys_iff]
    constructor
    · exact fun hk => ⟨hremoved k hk, fun h => ((hhas k).mp h).1 hk⟩
    · rintro ⟨hin, hout⟩
      by_contra hk
      exact hout ((hhas k).mpr ⟨hk, hin⟩)
  · rw [hgc]
    exact removedCalls_removeAll hnodup o

/-- One item that has expired, and three of which two are too many; two expire at one time. -/
def fourItems : LruCache String :=
  { newLruCache 1 1 with
    items := (((GoMap.set ∅ "a" ⟨2, ⟨"1", true⟩⟩).set "b" ⟨7, ⟨"2", true⟩⟩).set "c"
      ⟨7, ⟨"3", false⟩⟩).set "d" ⟨9, ⟨"4", true⟩⟩ }

theorem gc_collected_fourItems :
    Collected fourItems (fourItems.gc ["a", "c", "b", "d"] 5) 5 :=
  gc_collected fourItems ["a", "c", "b", "d"] 5 (by decide)

end GoraddServe.CacheCollection
