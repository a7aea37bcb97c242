import GoraddServe.GoMaps

/-!
# The cache

Every item of the cache has a time at which it expires, which `Set` and `Get` put off. A
collection removes the items that have expired, and of the others those that expire first until
the cache is not too large. `Set` starts one now and then, and it runs at some later time. What
a method does while it has the lock is one step.
-/
namespace GoraddServe.ItemCache
open GoMaps

variable {V : Type}

/-- The value of an `int64`. -/
def int64 (n : Int) : Int := n.bmod (2 ^ 64)

/-- A value that is not nil; it may have the method `Removed`. -/
structure Value (V : Type) where
  data : V
  remover : Bool

structure LruItem (V : Type) where
  expires : Int
  value : Value V

/-- `spawned` counts the collections that have been started and `collected` those that have run;
`removedCalls` are the values whose `Removed` has been called. A negative `maxItemCount` acts as 0:
the second loop of a collection then comes to the end of the keys. -/
structure LruCache (V : Type) where
  maxItemCount : ℕ
  ttl : Int
  items : GoMap String (LruItem V)
  setCounter : Int
  gcInterval : Int
  gcHappened : Bool
  spawned : ℕ
  collected : ℕ
  removedCalls : List (Value V)

def newLruCache (maxItemCount : ℕ) (ttlSeconds : Int) : LruCache V where
  maxItemCount
  ttl := int64 (ttlSeconds * (1000 * 1000 * 1000))
  items := ∅
  setCounter := 0
  gcInterval := if maxItemCount / 8 < 16 then 16 else maxItemCount / 8
  gcHappened := false
  spawned := 0
  collected := 0
  removedCalls := []

namespace LruCache

def setGCInterval (o : LruCache V) (interval : Int) : LruCache V :=
  { o with gcInterval := interval }

/-- The item is put in, and its time is that of the clock and the `ttl`. -/
def put (o : LruCache V) (key : String) (v : Value V) (now : Int) : LruCache V :=
  { o with items := o.items.set key ⟨int64 (now + o.ttl), v⟩ }

/-- A `Set` is counted, and it starts a collection when the counter comes round. -/
def count (o : LruCache V) : LruCache V :=
  let setCounter := o.setCounter + 1
  let setCounter := if setCounter ≥ o.gcInterval then 0 else setCounter
  if setCounter = 0 then
    { o with setCounter, gcHappened := true, spawned := o.spawned + 1 }
  else { o with setCounter }

/-- `o.Set(key, v)` when the clock reads `now`; it panics before it takes the lock. -/
def set (o : LruCache V) (key : String) (v : Option (Value V)) (now : Int) :
    Except String (LruCache V) :=
  match v with
  | none => .error "Cannot put a nil pointer into the lru cache"
  | some v =>
    if key = "" then .error "Cannot use a blank key in the lru cache"
    else .ok (o.put key v now).count

/-- `o.Get(key)`; the clock is read when the key is there. -/
def get (o : LruCache V) (key : String) (now : Int) : Option (Value V) × LruCache V :=
  match o.items.get key with
  | none => (none, o)
  | some i => (some i.value, o.put key i.value now)

def has (o : LruCache V) (key : String) : Bool := o.items.has key

def remove (o : LruCache V) (k : String) : LruCache V :=
  { o with
    items := o.items.delete k
    removedCalls := o.removedCalls ++
      (o.items.get k).toList.filterMap fun i => if i.value.remover then some i.value else none }

def expires (o : LruCache V) (k : String) : Int := ((o.items.get k).map LruItem.expires).getD 0

/-- The loop over the items that have expired, and `keys[itemNum:]` after it. When it runs to its
end `itemNum` is the index of the last key. -/
def expireLoop (now : Int) : List String → LruCache V → List String × LruCache V
  | [], o => ([], o)
  | k :: keys, o =>
    if o.expires k < now then
      if keys = [] then ([k], o.remove k)
      else expireLoop now keys (o.remove k)
    else (k :: keys, o)

def evictLoop : List String → LruCache V → LruCache V
  | [], o => o
  | k :: keys, o =>
    let o := o.remove k
    if o.items.len ≤ o.maxItemCount then o else evictLoop keys o

/-- `o.gc()` when `keys` are the sorted keys and the clock reads `now`. -/
def gc (o : LruCache V) (keys : List String) (now : Int) : LruCache V :=
  let (keys, o) := expireLoop now keys o
  let o := if o.items.len > o.maxItemCount then evictLoop keys o else o
  { o with gcHappened := true, collected := o.collected + 1 }

/-- A result of `sort.Slice`, which does not say in which order items come that expire at the same
time. -/
def Sorted (o : LruCache V) (keys : List String) : Prop :=
  Enumerates keys o.items.keys ∧ keys.Pairwise fun k k' => o.expires k ≤ o.expires k'

instance (o : LruCache V) (keys : List String) : Decidable (o.Sorted keys) :=
  inferInstanceAs (Decidable (_ ∧ _))

end LruCache

/-- What is done under the lock, with the reading of the clock. -/
inductive Label (V : Type) where
  | set (key : String) (v : Option (Value V)) (now : Int)
  | get (key : String) (now : Int)
  | has (key : String)
  | setGCInterval (interval : Int)
  /-- a collection that has been started runs -/
  | gc (keys : List String) (now : Int)

def step (o : LruCache V) : Label V → Option (LruCache V)
  | .set key v now => (o.set key v now).toOption
  | .get key now => some (o.get key now).2
  | .has _ => some o
  | .setGCInterval interval => some (o.setGCInterval interval)
  | .gc keys now =>
    if o.collected < o.spawned ∧ o.Sorted keys then some (o.gc keys now) else none

section Collection

variable {o : LruCache V} {keys : List String} {now : Int}

def removeAll (keys : List String) (o : LruCache V) : LruCache V := keys.foldl LruCache.remove o

theorem has_removeAll {k : String} :
    (removeAll keys o).items.has k = true ↔ k ∉ keys ∧ o.items.has k = true := by
  rw [removeAll]
  induction keys generalizing o with
  | nil => simp
  | cons k' keys ih =>
    rw [List.foldl_cons, ih, LruCache.remove, GoMap.has_delete, List.mem_cons, not_or]
    tauto

theorem get_removeAll {k : String} {i : LruItem V} (h : (removeAll keys o).items.get k = some i) :
    o.items.get k = some i := by
  rw [removeAll] at h
  induction keys generalizing o with
  | nil => exact h
  | cons k' keys ih =>
    have hrest : (o.items.delete k').get k = some i := ih h
    rw [GoMap.get_delete] at hrest
    split at hrest
    · cases hrest
    · exact hrest

/-- The rest of the cache is not touched. -/
structure SameSettings (o o' : LruCache V) : Prop where
  maxItemCount : o'.maxItemCount = o.maxItemCount
  ttl : o'.ttl = o.ttl
  setCounter : o'.setCounter = o.setCounter
  gcInterval : o'.gcInterval = o.gcInterval
  spawned : o'.spawned = o.spawned
  collected : o'.collected = o.collected

theorem sameSettings_removeAll (keys : List String) (o : LruCache V) :
    SameSettings o (removeAll keys o) := by
  rw [removeAll]
  induction keys generalizing o with
  | nil => exact ⟨rfl, rfl, rfl, rfl, rfl, rfl⟩
  | cons k keys ih =>
    have h := ih (o.remove k)
    exact ⟨h.1, h.2, h.3, h.4, h.5, h.6⟩

/-- The first loop removes keys from the front. What it leaves is the rest of the list, unless it
has removed all. -/
theorem expireLoop_eq (now : Int) (keys : List String) (o : LruCache V) : ∃ front rest,
    keys = front ++ rest ∧ (LruCache.expireLoop now keys o).2 = removeAll front o ∧
      ((LruCache.expireLoop now keys o).1 = rest ∨ rest = []) := by
  induction keys generalizing o with
  | nil => exact ⟨[], [], rfl, rfl, .inl rfl⟩
  | cons k keys ih =>
    rw [LruCache.expireLoop]
    by_cases hexpired : o.expires k < now
    · rw [if_pos hexpired]
      by_cases hkeys : keys = []
      · rw [if_pos hkeys, hkeys]
        exact ⟨[k], [], rfl, rfl, .inr rfl⟩
      · rw [if_neg hkeys]
        obtain ⟨front, rest, hsplit, hloop, hrest⟩ := ih (o.remove k)
        exact ⟨k :: front, rest, congrArg (k :: ·) hsplit, hloop, hrest⟩
    · rw [if_neg hexpired]
      exact ⟨[], k :: keys, rfl, rfl, .inl rfl⟩

theorem evictLoop_eq (keys : List String) (o : LruCache V) : ∃ front rest,
    keys = front ++ rest ∧ LruCache.evictLoop keys o = removeAll front o ∧
      (rest = [] ∨ (removeAll front o).items.len ≤ o.maxItemCount) := by
  induction keys generalizing o with
  | nil => exact ⟨[], [], rfl, rfl, .inl rfl⟩
  | cons k keys ih =>
    rw [LruCache.evictLoop]
    by_cases hsmall : (o.remove k).items.len ≤ (o.remove k).maxItemCount
    · rw [if_pos hsmall]
      exact ⟨[k], keys, rfl, rfl, .inr hsmall⟩
    · rw [if_neg hsmall]
      obtain ⟨front, rest, hsplit, hloop, hrest⟩ := ih (o.remove k)
      exact ⟨k :: front, rest, congrArg (k :: ·) hsplit, hloop, hrest⟩

theorem mem_sorted {k : String} (hkeys : o.Sorted keys) : k ∈ keys ↔ o.has k = true :=
  (hkeys.1.mem_iff k).trans GoMap.mem_keys_iff

theorem removeAll_append (keys keys' : List String) (o : LruCache V) :
    removeAll (keys ++ keys') o = removeAll keys' (removeAll keys o) :=
  List.foldl_append

/-- The second loop after the first one removes a part of the keys at the front that is large
enough. -/
theorem evictLoop_expireLoop_eq (now : Int) (hkeys : o.Sorted keys) : ∃ front rest,
    keys = front ++ rest ∧ (removeAll front o).items.len ≤ o.maxItemCount ∧
      (if (LruCache.expireLoop now keys o).2.items.len >
          (LruCache.expireLoop now keys o).2.maxItemCount then
        LruCache.evictLoop (LruCache.expireLoop now keys o).1 (LruCache.expireLoop now keys o).2
      else (LruCache.expireLoop now keys o).2) = removeAll front o := by
  have hempty : (removeAll keys o).items.len = 0 := GoMap.len_eq_zero fun k hk =>
    (has_removeAll.mp hk).1 ((mem_sorted hkeys).mpr (has_removeAll.mp hk).2)
  obtain ⟨front, rest, hsplit, hloop, hrest⟩ := expireLoop_eq now keys o
  have hmax := (sameSettings_removeAll front o).maxItemCount
  rw [hloop]
  by_cases hlarge : (removeAll front o).items.len > (removeAll front o).maxItemCount
  · rw [if_pos hlarge]
    -- then not all are removed, and the second loop goes on where the first has stopped
    have hne : rest ≠ [] := by
      rintro rfl
      rw [List.append_nil] at hsplit
      rw [← hsplit, hempty] at hlarge
      exact absurd hlarge (Nat.not_lt_zero _)
    obtain ⟨front', rest', hsplit', hloop', hrest'⟩ := evictLoop_eq rest (removeAll front o)
    have hfront : removeAll front' (removeAll front o) = removeAll (front ++ front') o :=
      (removeAll_append front front' o).symm
    have hkeys' : keys = (front ++ front') ++ rest' := by
      rw [List.append_assoc, ← hsplit', hsplit]
    rw [hfront] at hloop' hrest'
    refine ⟨front ++ front', rest', hkeys', ?_, hrest.resolve_right hne ▸ hloop'⟩
    rcases hrest' with hrest' | hsmall
    · rw [hrest', List.append_nil] at hkeys'
      rw [← hkeys', hempty]
      exact Nat.zero_le _
    · exact hmax ▸ hsmall
  · rw [if_neg hlarge]
    exact ⟨front, rest, hsplit, hmax ▸ Nat.le_of_not_lt hlarge, rfl⟩

theorem gc_eq (now : Int) (hkeys : o.Sorted keys) : ∃ front rest,
    keys = front ++ rest ∧ (removeAll front o).items.len ≤ o.maxItemCount ∧
      o.gc keys now =
        { removeAll front o with gcHappened := true, collected := o.collected + 1 } := by
  obtain ⟨front, rest, hsplit, hlen, hloops⟩ := evictLoop_expireLoop_eq now hkeys
  refine ⟨front, rest, hsplit, hlen, ?_⟩
  have hcollected := (sameSettings_removeAll front o).collected
  rw [← hcollected, ← hloops]
  rfl

/-- Of two keys, one that is removed does not expire later than one that is kept. -/
theorem gc_order (hkeys : o.Sorted keys) {k k' : String} (hk : o.items.has k = true)
    (hremoved : (o.gc keys now).items.has k ≠ true)
    (hkept : (o.gc keys now).items.has k' = true) : o.expires k ≤ o.expires k' := by
  obtain ⟨front, rest, hsplit, -, hgc⟩ := gc_eq now hkeys
  have hgone : ∀ k, (o.gc keys now).items.has k = true ↔ k ∉ front ∧ o.items.has k = true := by
    intro k
    rw [hgc]
    exact has_removeAll
  have hfront : k ∈ front := by
    by_contra hfront
    exact hremoved ((hgone k).mpr ⟨hfront, hk⟩)
  have hrest : k' ∈ rest := by
    have hmem := (mem_sorted hkeys).mpr ((hgone k').mp hkept).2
    rw [hsplit] at hmem
    exact (List.mem_append.mp hmem).resolve_left ((hgone k').mp hkept).1
  have hpairwise := hkeys.2
  rw [hsplit, List.pairwise_append] at hpairwise
  exact hpairwise.2.2 k hfront k' hrest

end Collection

end GoraddServe.ItemCache
