import Mathlib.Data.Finmap
import Mathlib.Data.Finset.Card
import Mathlib.Data.Finset.Dedup

/-!
# Maps with a ranged order

A map is a finite map, so two maps are equal when they hold the same entries. A `range`
over a map visits its keys in an order that the runtime chooses: the order is a
parameter of the code that ranges, and any enumeration of the keys is one. A map of
sets is a relation between keys and values.
-/
namespace GoraddServe.GoMaps

variable {K V : Type*} [DecidableEq K]

/-- `map[K]V` -/
abbrev GoMap (K V : Type*) := Finmap fun _ : K => V

namespace GoMap

/-- `v, ok := m[k]` -/
def get (m : GoMap K V) (k : K) : Option V := Finmap.lookup k m

/-- `m[k] = v` -/
def set (m : GoMap K V) (k : K) (v : V) : GoMap K V := Finmap.insert k v m

/-- `delete(m, k)` -/
def delete (m : GoMap K V) (k : K) : GoMap K V := Finmap.erase k m

/-- `_, ok := m[k]` -/
def has (m : GoMap K V) (k : K) : Bool := (m.get k).isSome

/-- `len(m)` -/
def len (m : GoMap K V) : ℕ := m.keys.card

@[simp] theorem get_empty (k : K) : (∅ : GoMap K V).get k = none := Finmap.lookup_empty k

theorem get_set (m : GoMap K V) (k k' : K) (v : V) :
    (m.set k v).get k' = if k' = k then some v else m.get k' := by
  split
  · rename_i h
    subst h
    exact Finmap.lookup_insert m
  · rename_i h
    exact Finmap.lookup_insert_of_ne m h

theorem get_delete (m : GoMap K V) (k k' : K) :
    (m.delete k).get k' = if k' = k then none else m.get k' := by
  split
  · rename_i h
    subst h
    exact Finmap.lookup_erase k' m
  · rename_i h
    exact Finmap.lookup_erase_ne h

theorem ext_get {m m' : GoMap K V} (h : ∀ k, m.get k = m'.get k) : m = m' := Finmap.ext_lookup h

theorem eq_empty_iff {m : GoMap K V} : m = ∅ ↔ ∀ k, m.get k = none := by
  constructor
  · rintro rfl
    exact get_empty
  · intro h
    exact ext_get fun k => by rw [h, get_empty]

theorem delete_of_not_has {m : GoMap K V} {k : K} (h : m.has k ≠ true) : m.delete k = m := by
  have hnone : m.get k = none := by simpa [has] using h
  refine ext_get fun k' => ?_
  rw [get_delete]
  split
  · rename_i hk
    rw [hk, hnone]
  · rfl

theorem mem_keys_iff {m : GoMap K V} {k : K} : k ∈ m.keys ↔ m.has k = true := by
  rw [Finmap.mem_keys, ← Finmap.lookup_isSome]
  rfl

theorem has_set (m : GoMap K V) (k k' : K) (v : V) :
    (m.set k v).has k' = true ↔ k' = k ∨ m.has k' = true := by
  rw [has, has, get_set]
  split <;> simp [*]

theorem has_delete (m : GoMap K V) (k k' : K) :
    (m.delete k).has k' = true ↔ k' ≠ k ∧ m.has k' = true := by
  rw [has, has, get_delete]
  split <;> simp [*]

theorem len_set_le (m : GoMap K V) (k : K) (v : V) : (m.set k v).len ≤ m.len + 1 := by
  refine (Finset.card_le_card fun k' hk' => ?_).trans (Finset.card_insert_le k m.keys)
  rw [Finset.mem_insert, mem_keys_iff]
  exact (has_set m k k' v).mp (mem_keys_iff.mp hk')

theorem len_set_of_has {m : GoMap K V} {k : K} (h : m.has k = true) (v : V) :
    (m.set k v).len = m.len := by
  refine congrArg Finset.card (Finset.ext fun k' => ?_)
  rw [mem_keys_iff, mem_keys_iff, has_set]
  exact or_iff_right_of_imp fun hk => hk ▸ h

theorem len_eq_zero {m : GoMap K V} (h : ∀ k, m.has k ≠ true) : m.len = 0 :=
  Finset.card_eq_zero.mpr (Finset.eq_empty_of_forall_notMem fun k hk => h k (mem_keys_iff.mp hk))

theorem len_pos_iff {m : GoMap K V} : 0 < m.len ↔ m ≠ ∅ := by
  rw [len, Finset.card_pos, Finset.nonempty_iff_ne_empty, ne_eq, ne_eq, not_iff_not, eq_empty_iff,
    Finset.eq_empty_iff_forall_notMem]
  simp only [Finmap.mem_keys, get, Finmap.lookup_eq_none]

end GoMap

/-- `order` is an order in which a `range` may visit the keys `keys`. -/
def Enumerates (order : List K) (keys : Finset K) : Prop :=
  order.Nodup ∧ order.toFinset = keys

instance (order : List K) (keys : Finset K) : Decidable (Enumerates order keys) :=
  inferInstanceAs (Decidable (_ ∧ _))

theorem Enumerates.mem_iff {order : List K} {keys : Finset K} (h : Enumerates order keys) (k : K) :
    k ∈ order ↔ k ∈ keys := by
  rw [← h.2, List.mem_toFinset]

section MapsOfSets

variable {V : Type*} [DecidableEq V]

/-- `v` is in the set at `k`. -/
def Relates (m : GoMap K (Finset V)) (k : K) (v : V) : Prop :=
  ∃ vs, m.get k = some vs ∧ v ∈ vs

instance (m : GoMap K (Finset V)) (k : K) (v : V) : Decidable (Relates m k v) :=
  match h : m.get k with
  | none => isFalse fun ⟨_, hvs, _⟩ => by simp [h] at hvs
  | some vs => decidable_of_iff (v ∈ vs) (by simp [Relates, h])

def NoEmptySet (m : GoMap K (Finset V)) : Prop :=
  ∀ k vs, m.get k = some vs → vs.Nonempty

/-- Put `v` into the set at `k`, which is made when there is none. -/
def addTo (m : GoMap K (Finset V)) (k : K) (v : V) : GoMap K (Finset V) :=
  match m.get k with
  | none => m.set k {v}
  | some vs => m.set k (insert v vs)

/-- Take `v` out of the set at `k`, and `k` out of the map when its set becomes empty. -/
def removeFrom (m : GoMap K (Finset V)) (k : K) (v : V) : GoMap K (Finset V) :=
  match m.get k with
  | none => m
  | some vs =>
    let vs := vs.erase v
    if vs.card = 0 then m.delete k else m.set k vs

theorem get_addTo (m : GoMap K (Finset V)) (k k' : K) (v : V) :
    (addTo m k v).get k' =
      if k' = k then some (insert v ((m.get k).getD ∅)) else m.get k' := by
  unfold addTo
  cases h : m.get k <;> simp [GoMap.get_set]

theorem get_removeFrom (m : GoMap K (Finset V)) (k k' : K) (v : V) :
    (removeFrom m k v).get k' =
      if k' = k then (m.get k).bind fun vs => if vs.erase v = ∅ then none else some (vs.erase v)
      else m.get k' := by
  unfold removeFrom
  cases h : m.get k with
  | none =>
    by_cases hk : k' = k
    · subst hk
      simp [h]
    · simp [hk]
  | some vs =>
    simp only [Finset.card_eq_zero, Option.bind_some]
    split
    · rw [GoMap.get_delete]
    · rw [GoMap.get_set]

theorem relates_addTo {m : GoMap K (Finset V)} {k k' : K} {v v' : V} :
    Relates (addTo m k v) k' v' ↔ Relates m k' v' ∨ (k' = k ∧ v' = v) := by
  unfold Relates
  rw [get_addTo]
  by_cases hk : k' = k
  · subst hk
    cases m.get k' <;> simp [or_comm]
  · simp [hk]

theorem relates_removeFrom {m : GoMap K (Finset V)} {k k' : K} {v v' : V} :
    Relates (removeFrom m k v) k' v' ↔ Relates m k' v' ∧ ¬(k' = k ∧ v' = v) := by
  unfold Relates
  rw [get_removeFrom]
  by_cases hk : k' = k
  · subst hk
    cases h : m.get k' with
    | none => simp
    | some vs =>
      by_cases hv : vs.erase v = ∅
      · have hsub : ∀ w ∈ vs, w = v := by
          intro w hw
          by_contra hne
          exact Finset.notMem_empty w (hv ▸ Finset.mem_erase.mpr ⟨hne, hw⟩)
        simpa [hv] using hsub v'
      · simp [hv, and_comm]
  · simp [hk]

theorem NoEmptySet.addTo {m : GoMap K (Finset V)} (hm : NoEmptySet m) (k : K) (v : V) :
    NoEmptySet (addTo m k v) := by
  intro k' vs h
  rw [get_addTo] at h
  split at h
  · cases h
    exact Finset.insert_nonempty _ _
  · exact hm k' vs h

theorem NoEmptySet.removeFrom {m : GoMap K (Finset V)} (hm : NoEmptySet m) (k : K) (v : V) :
    NoEmptySet (removeFrom m k v) := by
  intro k' vs h
  rw [get_removeFrom] at h
  split at h
  · obtain ⟨ws, -, hws⟩ := Option.bind_eq_some_iff.mp h
    split at hws
    · cases hws
    · rename_i hne
      cases hws
      exact Finset.nonempty_iff_ne_empty.mpr hne
  · exact hm k' vs h

end MapsOfSets

end GoraddServe.GoMaps
