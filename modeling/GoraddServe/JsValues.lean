import Mathlib.Data.Int.Notation
import Mathlib.Data.List.Basic
import Mathlib.Data.List.Nodup
import Mathlib.Logic.Basic

/-!
# Values of the page

What `JSON.parse` gives, and what the code makes of it. An object is the list of its own
properties in the order in which `for (i in obj)` meets them. Of the numbers only that is used
which `each` asks about a `length`.
-/
namespace GoraddServe.JsValues

/-- The names that every object inherits. `obj[key]` is a function or an object for each of them,
though nothing was put there. -/
def inherited : List String :=
  ["__proto__", "__defineGetter__", "__defineSetter__", "__lookupGetter__", "__lookupSetter__",
    "constructor", "hasOwnProperty", "isPrototypeOf", "propertyIsEnumerable", "toLocaleString",
    "toString", "valueOf"]

/-- `n === 0`, the property name of `n - 1`, and how many of `0, 1, ...` are below `n`; for
`Infinity` there is no end of them. -/
class Number (N : Type*) where
  isZero : N → Bool
  lastIndex : N → String
  indices : N → Option ℕ

/-- Integers that a number of the language represents exactly. -/
instance : Number ℤ where
  isZero n := n = 0
  lastIndex n := toString (n - 1)
  indices n := some n.toNat

/-- `host` is a function, a date or another value that the browser makes. -/
inductive Value (N : Type*) where
  | undefined
  | null
  | bool (b : Bool)
  | num (n : N)
  | str (s : String)
  | arr (items : List (Value N))
  | obj (fields : List (String × Value N))
  | host (number : ℕ)

namespace Value

variable {N : Type*} [Number N]

/-- `!!value` -/
def truthy : Value N → Bool
  | undefined | null => false
  | bool b => b
  | num n => !Number.isZero n
  | str s => s ≠ ""
  | arr _ | obj _ | host _ => true

/-- `obj[key]`, for a key that objects do not inherit. -/
def property (fields : List (String × Value N)) (key : String) : Value N :=
  (fields.lookup key).getD undefined

/-- `obj[key] = value`. An assignment to `__proto__` makes no property. -/
def setProperty (fields : List (String × Value N)) (key : String) (value : Value N) :
    List (String × Value N) :=
  if key = "__proto__" then fields
  else if (fields.lookup key).isSome then
    fields.map fun f => if f.1 = key then (key, value) else f
  else fields ++ [(key, value)]

/-- The test of `each` on an object. -/
def isArrayLike (fields : List (String × Value N)) : Bool :=
  match fields.lookup "length" with
  | some (num n) => Number.isZero n || (fields.lookup (Number.lastIndex n)).isSome
  | _ => false

/-- The arguments of the calls that `goradd.each` makes, or `none` when it does not end. -/
def each : Value N → Option (List (String × Value N))
  | arr items => some (items.zipIdx.map fun x => (toString x.2, x.1))
  | obj fields =>
    if isArrayLike fields then
      match fields.lookup "length" with
      | some (num n) =>
        if Number.isZero n then some []
        else (Number.indices n).map fun count => (List.range count).map fun i =>
          (toString i, property fields (toString i))
      | _ => some []
    else some fields
  | _ => some []

section Each

variable {v x : Value N} {items : List (Value N)} {fields calls : List (String × Value N)}
  {key : String}

theorem each_obj (h : isArrayLike fields = false) : each (obj fields) = some fields := by
  simp [each, h]

omit [Number N] in
theorem lookup_mem (h : fields.lookup key = some x) : (key, x) ∈ fields := by
  obtain ⟨l₁, l₂, rfl, -⟩ := List.lookup_eq_some_iff.mp h
  simp

omit [Number N] in
theorem sizeOf_property_lt : sizeOf (property fields key) < sizeOf (obj fields) := by
  unfold property
  cases h : fields.lookup key with
  | none =>
    simp only [Option.getD_none, undefined.sizeOf_spec, obj.sizeOf_spec]
    cases fields with
    | nil =>
      rw [List.nil.sizeOf_spec]
      omega
    | cons f fields =>
      rw [List.cons.sizeOf_spec]
      omega
  | some x =>
    have hmem := List.sizeOf_lt_of_mem (lookup_mem h)
    simp only [Prod.mk.sizeOf_spec] at hmem
    simp
    omega

theorem sizeOf_each (h : each v = some calls) {e : String × Value N} (he : e ∈ calls) :
    sizeOf e.2 < sizeOf v := by
  cases v with
  | arr items =>
    obtain rfl := Option.some_inj.mp h
    obtain ⟨x, hx, rfl⟩ := List.mem_map.mp he
    have hlt := List.sizeOf_lt_of_mem (List.fst_mem_of_mem_zipIdx hx)
    simp only [arr.sizeOf_spec]
    omega
  | obj fields =>
    by_cases hlike : isArrayLike fields = true
    · simp only [each, hlike, if_true] at h
      split at h
      · split at h
        · obtain rfl := Option.some_inj.mp h
          cases he
        · obtain ⟨count, -, rfl⟩ := Option.map_eq_some_iff.mp h
          obtain ⟨i, -, rfl⟩ := List.mem_map.mp he
          exact sizeOf_property_lt
      · obtain rfl := Option.some_inj.mp h
        cases he
    · rw [each_obj (by simpa using hlike)] at h
      obtain rfl := Option.some_inj.mp h
      have hlt := List.sizeOf_lt_of_mem he
      obtain ⟨key, x⟩ := e
      simp only [Prod.mk.sizeOf_spec] at hlt
      simp only [obj.sizeOf_spec]
      omega
  | undefined | null | bool | num | str | host =>
    obtain rfl := Option.some_inj.mp h
    cases he

end Each

end Value

end GoraddServe.JsValues
