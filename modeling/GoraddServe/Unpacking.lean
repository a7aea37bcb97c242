import GoraddServe.JsValues

/-!
# Unpacking the parameters of a command

`_unpackArray` and `_unpackObj` copy the values that the server sends, and put functions, dates
and other values in the place of the objects with a `goraddObject`. Both go through an object
with `goradd.each`.
-/
namespace GoraddServe.Unpacking
open JsValues JsValues.Value

variable {N : Type*} [Number N]

/-- The value that an object with a `goraddObject` stands for, when it is made. -/
abbrev Special (N : Type*) := List (String × Value N) → Option (Value N)

/-- `newItem[key] = value` for each of the entries. -/
def newItem (entries : List (String × Value N)) : Value N :=
  obj (entries.foldl (fun fields e => setProperty fields e.1 e.2) [])

/-- `item.goraddObject` as a condition -/
def isGoraddObject (fields : List (String × Value N)) : Bool :=
  (property fields "goraddObject").truthy

mutual

/-- The functions return nothing when `each` does not end. -/
def unpackArray (special : Special N) (params : Value N) : Option (Value N) :=
  if !params.truthy then some null
  else match h : params.each with
    | none => none
    | some calls => (calls.attach.mapM fun e =>
        have := sizeOf_each h e.2
        unpackItem special e.1.2).map arr
termination_by (sizeOf params, 0)
decreasing_by exact .left _ _ ‹_›

/-- The function that `_unpackArray` gives to `each`, up to `newParams.push(item)`. -/
def unpackItem (special : Special N) (item : Value N) : Option (Value N) :=
  match item with
  | arr items => unpackArray special (arr items)
  | obj fields =>
    if isGoraddObject fields then unpackObj special (obj fields)
    else match h : (obj fields).each with
      | none => none
      | some calls => (calls.attach.mapM fun e =>
          have := sizeOf_each h e.2
          (unpackObj special e.1.2).map (e.1.1, ·)).map newItem
  | v => some v
termination_by (sizeOf item, 2)
decreasing_by
  · exact .right _ (by decide)
  · exact .right _ (by decide)
  · exact .left _ _ ‹_›

def unpackObj (special : Special N) (o : Value N) : Option (Value N) :=
  match o with
  | arr items => unpackArray special (arr items)
  | obj fields =>
    if isGoraddObject fields then special fields
    else match h : (obj fields).each with
      | none => none
      | some calls => (calls.attach.mapM fun e =>
          have := sizeOf_each h e.2
          (unpackObj special e.1.2).map (e.1.1, ·)).map newItem
  | v => some v
termination_by (sizeOf o, 1)
decreasing_by
  · exact .right _ (by decide)
  · exact .left _ _ ‹_›

end

section Equations

variable {special : Special N} {v : Value N} {items : List (Value N)}
  {fields : List (String × Value N)}

omit [Number N] in
theorem mapM_attach {calls : List (String × Value N)} {β : Type*}
    (f : String × Value N → Option β) : (calls.attach.mapM fun e => f e.1) = calls.mapM f := by
  rw [List.mapM_subtype (g := f) fun _ _ => rfl, List.unattach_attach]

theorem unpackObj_obj (h : isGoraddObject fields = false) : unpackObj special (obj fields) =
    (obj fields).each.bind fun calls =>
      (calls.mapM fun e => (unpackObj special e.2).map (e.1, ·)).map newItem := by
  rw [unpackObj]
  simp only [h, Bool.false_eq_true, if_false]
  split
  · rename_i heach
    rw [heach]
    rfl
  · rename_i calls heach
    rw [heach, Option.bind_some]
    exact congrArg (Option.map newItem)
      (mapM_attach fun e => (unpackObj special e.2).map (e.1, ·))

theorem unpackItem_eq (v : Value N) : unpackItem special v = unpackObj special v := by
  cases v with
  | obj fields =>
    by_cases h : isGoraddObject fields = true
    · simp only [unpackItem, h, if_true]
    · rw [unpackItem, if_neg h]
      conv_rhs => rw [unpackObj, if_neg h]
  | _ => simp [unpackItem, unpackObj]

theorem unpackArray_arr : unpackArray special (arr items) =
    (items.mapM (unpackObj special)).map arr := by
  have hmap : ((items.zipIdx.map fun x => (toString x.2, x.1)).mapM fun e =>
      unpackItem special e.2) = items.mapM (unpackObj special) := by
    have hfst : (items.zipIdx.map Prod.fst).mapM (unpackItem special) =
        items.zipIdx.mapM (unpackItem special ∘ Prod.fst) := List.mapM_map
    rw [List.zipIdx_map_fst, funext unpackItem_eq] at hfst
    rw [List.mapM_map, hfst]
    exact congrArg (List.mapM · _) (funext fun x => unpackItem_eq x.1)
  rw [unpackArray, if_neg (by simp [truthy])]
  split
  · rename_i heach
    cases heach
  · rename_i calls heach
    obtain rfl := Option.some_inj.mp heach
    rw [mapM_attach fun e => unpackItem special e.2, hmap]

end Equations

/-- A value that `JSON.parse` gives, without a `goraddObject` anywhere. -/
inductive Plain : Value N → Prop where
  | null : Plain null
  | bool (b : Bool) : Plain (bool b)
  | num (n : N) : Plain (num n)
  | str (s : String) : Plain (str s)
  | arr {items : List (Value N)} (h : ∀ x ∈ items, Plain x) : Plain (arr items)
  | obj {fields : List (String × Value N)} (hkeys : (fields.map Prod.fst).Nodup)
      (hspecial : "goraddObject" ∉ fields.map Prod.fst) (h : ∀ e ∈ fields, Plain e.2) :
      Plain (obj fields)

/-- No object of the value passes the test of `each`, and none has a key `__proto__`. -/
inductive Kept : Value N → Prop where
  | null : Kept null
  | bool (b : Bool) : Kept (bool b)
  | num (n : N) : Kept (num n)
  | str (s : String) : Kept (str s)
  | arr {items : List (Value N)} (h : ∀ x ∈ items, Kept x) : Kept (arr items)
  | obj {fields : List (String × Value N)} (hlike : isArrayLike fields = false)
      (hproto : "__proto__" ∉ fields.map Prod.fst) (h : ∀ e ∈ fields, Kept e.2) :
      Kept (obj fields)

section Copies

variable {special : Special N} {fields entries calls : List (String × Value N)} {key : String}
  {x : Value N}

omit [Number N] in
theorem mapM_self {α : Type*} {f : α → Option α} {l : List α} :
    l.mapM f = some l ↔ ∀ a ∈ l, f a = some a := by
  induction l with
  | nil => simp
  | cons a l ih =>
    cases ha : f a <;> cases hl : l.mapM f <;> simp_all

omit [Number N] in
theorem mapM_keys {f : Value N → Option (Value N)}
    (h : (calls.mapM fun e => (f e.2).map (e.1, ·)) = some entries) :
    entries.map Prod.fst = calls.map Prod.fst := by
  induction calls generalizing entries with
  | nil =>
    obtain rfl : [] = entries := by simpa using h
    rfl
  | cons e calls ih =>
    simp only [List.mapM_cons, Option.bind_eq_bind, Option.bind_eq_some_iff,
      Option.map_eq_some_iff] at h
    obtain ⟨_, ⟨x, -, rfl⟩, rest, hrest, h⟩ := h
    obtain rfl : _ = entries := Option.some_inj.mp h
    simp [ih hrest]

omit [Number N] in
theorem mem_setProperty {k : String} (h : k ∈ (setProperty fields key x).map Prod.fst) :
    k ∈ fields.map Prod.fst ∨ k = key ∧ key ≠ "__proto__" := by
  unfold setProperty at h
  split_ifs at h with hproto hhas
  · exact .inl h
  · obtain ⟨e, he, rfl⟩ := List.mem_map.mp h
    obtain ⟨f, hf, rfl⟩ := List.mem_map.mp he
    by_cases hkey : f.1 = key
    · exact .inr ⟨by simp [hkey], hproto⟩
    · exact .inl (by simpa [hkey] using ⟨f.2, hf⟩)
  · simp only [List.map_append, List.mem_append, List.map_singleton, List.mem_singleton] at h
    exact h.imp_right (⟨·, hproto⟩)

omit [Number N] in
/-- The copy has no other keys, and never the key `__proto__`. -/
theorem keys_of_newItem (h : newItem entries = obj fields) :
    ∀ k ∈ fields.map Prod.fst, k ∈ entries.map Prod.fst ∧ k ≠ "__proto__" := by
  have hstep : ∀ (entries copy : List (String × Value N)), ∀ k ∈ (entries.foldl
      (fun fields e => setProperty fields e.1 e.2) copy).map Prod.fst,
      k ∈ copy.map Prod.fst ∨ k ∈ entries.map Prod.fst ∧ k ≠ "__proto__" := by
    intro entries
    induction entries with
    | nil => exact fun copy k hk => .inl hk
    | cons e entries ih =>
      intro copy k hk
      obtain hk | ⟨hk, hne⟩ := ih _ k hk
      · obtain hk | ⟨rfl, hne⟩ := mem_setProperty hk
        · exact .inl hk
        · exact .inr ⟨by simp, hne⟩
      · exact .inr ⟨List.mem_cons_of_mem _ hk, hne⟩
  obtain rfl := (Value.obj.inj h)
  intro k hk
  obtain hk | hk := hstep entries [] k hk
  · cases hk
  · exact hk

omit [Number N] in
/-- Without the key `__proto__` the copy has all the entries. -/
theorem newItem_eq (hkeys : (entries.map Prod.fst).Nodup)
    (hproto : "__proto__" ∉ entries.map Prod.fst) : newItem entries = obj entries := by
  have hstep : ∀ (entries copy : List (String × Value N)),
      ((copy ++ entries).map Prod.fst).Nodup → "__proto__" ∉ entries.map Prod.fst →
      entries.foldl (fun fields e => setProperty fields e.1 e.2) copy = copy ++ entries := by
    intro entries
    induction entries with
    | nil => simp
    | cons e entries ih =>
      intro copy hnodup hproto
      have hnew : copy.lookup e.1 = none := by
        refine List.lookup_eq_none_iff.mpr fun f hf => ?_
        have hdisjoint := (List.nodup_append.mp (List.map_append ▸ hnodup)).2.2
        have hne := hdisjoint f.1 (List.mem_map_of_mem hf) e.1 (by simp)
        simpa using Ne.symm hne
      have hne : e.1 ≠ "__proto__" := by
        rintro heq
        exact hproto (heq ▸ List.mem_cons_self)
      rw [List.foldl_cons, setProperty, if_neg hne, hnew]
      simp only [Option.isSome_none, Bool.false_eq_true, if_false]
      rw [ih (copy ++ [(e.1, e.2)]) (by simpa using hnodup)
        fun h => hproto (List.mem_cons_of_mem _ h)]
      simp
  exact congrArg obj (hstep entries [] hkeys hproto)

/-- The keys that `each` gives to the items of something array-like. -/
theorem each_arrayLike (hlike : isArrayLike fields = true) (h : (obj fields).each = some calls) :
    "length" ∈ fields.map Prod.fst ∧ "length" ∉ calls.map Prod.fst := by
  have hindex : ∀ i : ℕ, toString i ≠ "length" := by
    intro i heq
    have hmem : 'l' ∈ (toString i).toList := by simp [heq]
    have hdigit := Nat.isDigit_of_mem_toDigits (by decide) (by decide) (Nat.toList_repr ▸ hmem)
    exact absurd hdigit (by decide)
  simp only [each, hlike, if_true] at h
  unfold isArrayLike at hlike
  split at hlike
  · rename_i n hlength
    refine ⟨List.mem_map_of_mem (f := Prod.fst) (lookup_mem hlength), ?_⟩
    rw [hlength] at h
    simp only at h
    split_ifs at h with hzero
    · obtain rfl := Option.some_inj.mp h
      simp
    · obtain ⟨count, -, rfl⟩ := Option.map_eq_some_iff.mp h
      simpa using fun i _ => hindex i
  · cases hlike

theorem not_goraddObject (h : "goraddObject" ∉ fields.map Prod.fst) :
    isGoraddObject fields = false := by
  have hnone : fields.lookup "goraddObject" = none := by
    refine List.lookup_eq_none_iff.mpr fun f hf => ?_
    simpa using fun heq : "goraddObject" = f.1 => h (heq ▸ List.mem_map_of_mem hf)
  simp [isGoraddObject, property, hnone, truthy]

/-- An object is copied as it is when it does not pass the test of `each`, has no key `__proto__`
and its properties are copied as they are. -/
theorem unpackObj_obj_self (hkeys : (fields.map Prod.fst).Nodup)
    (hspecial : "goraddObject" ∉ fields.map Prod.fst) :
    unpackObj special (obj fields) = some (obj fields) ↔ isArrayLike fields = false ∧
      "__proto__" ∉ fields.map Prod.fst ∧ ∀ e ∈ fields, unpackObj special e.2 = some e.2 := by
  rw [unpackObj_obj (not_goraddObject hspecial)]
  have hself : (∀ e ∈ fields, (unpackObj special e.2).map (e.1, ·) = some e) ↔
      ∀ e ∈ fields, unpackObj special e.2 = some e.2 := by
    refine forall₂_congr fun e _ => ?_
    cases unpackObj special e.2 <;> simp [Prod.ext_iff]
  constructor
  · intro h
    obtain ⟨calls, heach, h⟩ := Option.bind_eq_some_iff.mp h
    obtain ⟨entries, hentries, hcopy⟩ := Option.map_eq_some_iff.mp h
    have hmem := keys_of_newItem hcopy
    rw [mapM_keys hentries] at hmem
    have hlike : isArrayLike fields = false := by
      by_contra hlike
      obtain ⟨hlength, hnot⟩ := each_arrayLike (by simpa using hlike) heach
      exact hnot (hmem _ hlength).1
    obtain rfl : fields = calls := Option.some_inj.mp ((each_obj hlike).symm.trans heach)
    have hproto : "__proto__" ∉ fields.map Prod.fst := fun h => (hmem _ h).2 rfl
    have hsame := mapM_keys hentries
    rw [newItem_eq (hsame ▸ hkeys) (hsame ▸ hproto)] at hcopy
    obtain rfl := Value.obj.inj hcopy
    exact ⟨hlike, hproto, hself.mp (mapM_self.mp hentries)⟩
  · rintro ⟨hlike, hproto, h⟩
    rw [each_obj hlike, Option.bind_some, mapM_self.mpr (hself.mpr h), Option.map_some,
      newItem_eq hkeys hproto]

theorem unpackObj_self (special : Special N) (hx : Plain x) :
    unpackObj special x = some x ↔ Kept x := by
  induction hx with
  | null => simp [unpackObj, Kept.null]
  | bool b => simp [unpackObj, Kept.bool]
  | num n => simp [unpackObj, Kept.num]
  | str s => simp [unpackObj, Kept.str]
  | @arr items _ ih =>
    have hitems : unpackObj special (arr items) = some (arr items) ↔
        ∀ x ∈ items, unpackObj special x = some x := by
      rw [unpackObj, unpackArray_arr, ← mapM_self]
      cases items.mapM (unpackObj special) <;> simp
    rw [hitems]
    constructor
    · exact fun h => .arr fun x hx => (ih x hx).mp (h x hx)
    · rintro (_ | _ | _ | _ | h)
      exact fun x hx => (ih x hx).mpr (h x hx)
  | obj hkeys hspecial _ ih =>
    rw [unpackObj_obj_self hkeys hspecial]
    constructor
    · rintro ⟨hlike, hproto, h⟩
      exact .obj hlike hproto fun e he => (ih e he).mp (h e he)
    · rintro (_ | _ | _ | _ | _ | ⟨hlike, hproto, h⟩)
      exact ⟨hlike, hproto, fun e he => (ih e he).mpr (h e he)⟩

/-- Which data unpacking leaves alone. -/
theorem unpackArray_singleton (special : Special N) (hx : Plain x) :
    unpackArray special (arr [x]) = some (arr [x]) ↔ Kept x := by
  rw [unpackArray_arr, ← unpackObj_self special hx]
  cases h : unpackObj special x <;> simp [h]

end Copies

/-- The colours of a table that has a column `length`. -/
def colors : Value ℤ := obj [("width", str "red"), ("length", num 0)]

theorem colors_plain : Plain colors :=
  .obj (by decide) (by decide) (by simp [Plain.str, Plain.num])

/-- Every object with a `goraddObject` is a date, here the same one. -/
def sameDate : Special ℤ := fun _ => some (host 0)

/-- A row of a table, with the sizes that it comes in. -/
def row : Value ℤ :=
  obj [("name", str "red"), ("sizes", arr [num 1, obj [("wide", bool true), ("note", null)]])]

theorem row_plain : Plain row := by
  have hsize : Plain (obj [("wide", bool true), ("note", null)] : Value ℤ) :=
    .obj (by decide) (by decide) (by simp [Plain.bool, Plain.null])
  have hsizes : Plain (arr [num 1, obj [("wide", bool true), ("note", null)]] : Value ℤ) :=
    .arr (by simp [Plain.num, hsize])
  exact .obj (by decide) (by decide) (by simp [Plain.str, hsizes])

theorem row_kept : Kept row := by
  have hsize : Kept (obj [("wide", bool true), ("note", null)] : Value ℤ) :=
    .obj (by decide) (by decide) (by simp [Kept.bool, Kept.null])
  have hsizes : Kept (arr [num 1, obj [("wide", bool true), ("note", null)]] : Value ℤ) :=
    .arr (by simp [Kept.num, hsize])
  exact .obj (by decide) (by decide) (by simp [Kept.str, hsizes])

theorem unpackArray_singleton_row : unpackArray sameDate (arr [row]) = some (arr [row]) :=
  (unpackArray_singleton sameDate row_plain).mpr row_kept

/-- An object with a `length` of zero loses its keys. -/
theorem unpackArray_colors : Plain colors ∧ ∀ special : Special ℤ,
    unpackArray special (arr [colors]) = some (arr [obj []]) ∧
      unpackArray special (arr [colors]) ≠ some (arr [colors]) := by
  refine ⟨colors_plain, fun special => ?_⟩
  have heach : colors.each = some [] := by
    simp [colors, each, isArrayLike, Number.isZero, List.lookup_cons]
  have hcopy : unpackObj special colors = some (obj []) := by
    rw [colors, unpackObj_obj (not_goraddObject (by decide)), ← colors, heach]
    rfl
  have hunpack : unpackArray special (arr [colors]) = some (arr [obj []]) := by
    rw [unpackArray_arr]
    simp [hcopy]
  refine ⟨hunpack, fun hkept => ?_⟩
  have hnil := Option.some_inj.mp (hunpack.symm.trans hkept)
  simp [colors] at hnil

end GoraddServe.Unpacking
