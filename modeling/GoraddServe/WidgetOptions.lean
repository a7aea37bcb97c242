import GoraddServe.Unpacking
import Mathlib.Tactic.IntervalCases

/-!
# The options of a widget

The attributes `data-gr-opt-…` of a control become the options with which its widget is made. The
widget fills in its defaults with `extendOptions`, and keeps a copy that `extend` makes.
-/
namespace GoraddServe.WidgetOptions
open JsValues JsValues.Value

variable {N : Type*}

/-- The own properties of a plain object. -/
abbrev Fields (N : Type*) := List (String × Value N)

/-- `obj.hasOwnProperty` is the function that objects inherit. -/
def callable (fields : Fields N) : Bool := (fields.lookup "hasOwnProperty").isNone

/- `goradd.extend({}, value)` for the objects that an object has, or `none` when it throws. -/
mutual

def copy (value : Value N) : Option (Value N) := match value with
  | obj fields => if callable fields then (copyInto [] fields).map obj else none
  | value => some value
termination_by structural value

def copyInto (target input : Fields N) : Option (Fields N) := match input with
  | [] => some target
  | field :: input => (copyField target field).bind fun target => copyInto target input
termination_by structural input

def copyField (target : Fields N) (field : String × Value N) : Option (Fields N) :=
  match field with
  | (_, undefined) => some target
  | (key, value) => (copy value).map (setProperty target key)
termination_by structural field

end

/-- `goradd.extend({}, value)` for a plain object; for anything else it is not called. -/
def copied : Value N → Option (Fields N)
  | obj fields => if callable fields then copyInto [] fields else none
  | _ => some []

/- The loop of `goradd.extend` over the keys of an object. -/
mutual

def extendWith (target input : Fields N) : Option (Fields N) := match input with
  | [] => some target
  | field :: input => (extendField target field).bind fun target => extendWith target input
termination_by structural input

def extendField (target : Fields N) (field : String × Value N) : Option (Fields N) :=
  match field with
  | (key, value) => extendKey target key value
termination_by structural field

def extendKey (target : Fields N) (key : String) (value : Value N) : Option (Fields N) :=
  match value with
  | undefined => some target
  | obj fields => (copied (property target key)).bind fun new =>
      if callable fields then (extendWith new fields).map (setProperty target key <| obj ·)
      else none
  | value => some (setProperty target key value)
termination_by structural value

end

/-- `goradd.extend(target, input)`. The method is called at the first key of `input`. -/
def extend (target input : Fields N) : Option (Fields N) :=
  if callable input then extendWith target input else none

/-- Html has one way to write a blank string and `true`. -/
def optionValue (default value : Value N) : Value N :=
  match default, value with
  | str _, .bool true => str ""
  | _, value => value

def extendOptions [Number N] (defaultOptions userOptions : Fields N) : Option (Fields N) := do
  let newOptions ← extend (← extend [] defaultOptions) userOptions
  let calls ← each (obj userOptions)
  return calls.foldl (fun newOptions e =>
    setProperty newOptions e.1 (optionValue (property defaultOptions e.1) e.2)) newOptions

def isLower (c : Char) : Bool := 'a' ≤ c && c ≤ 'z'

def isUpper (c : Char) : Bool := 'A' ≤ c && c ≤ 'Z'

/-- Every hyphen and letter after it become the capital letter. -/
def fromKebab : List Char → List Char
  | [] => []
  | [c] => [c]
  | c :: c' :: s =>
    if c = '-' ∧ (isLower c' || isUpper c') then c'.toUpper :: fromKebab s
    else c :: fromKebab (c' :: s)

/-- All attributes of an element; one that is empty reads as `true`. -/
def attr (attributes : List (String × String)) : Fields N :=
  attributes.map fun a => (a.1, if a.2 = "" then bool true else str a.2)

/-- The name of the option that an attribute gives. -/
def optionName (name : String) : Option String :=
  if "data-gr-opt-".toList.isPrefixOf name.toList then
    some (String.ofList (fromKebab (name.toList.drop 12)))
  else none

/-- The options that `_registerControl` collects. -/
def collected [Number N] (attributes : List (String × String)) : Fields N :=
  ((each (obj (attr attributes))).getD []).foldl
    (fun options a => (optionName a.1).elim options (setProperty options · a.2)) []

def widgetOptions [Number N] (defaultOptions : Fields N) (attributes : List (String × String)) :
    Option (Fields N) :=
  (extendOptions defaultOptions (collected attributes)).bind (extend [])

section Properties

variable {target input fields : Fields N} {key k : String} {value old : Value N}

theorem lookup_cons : ((key, value) :: fields).lookup k =
    if k = key then some value else fields.lookup k := by
  rw [List.lookup_cons]
  by_cases hk : k = key
  · rw [beq_iff_eq.mpr hk, if_pos hk]
  · rw [beq_false_of_ne hk, if_neg hk]

theorem property_cons : property ((key, value) :: fields) k =
    if k = key then value else property fields k := by
  rw [property, lookup_cons]
  split
  · rfl
  · rfl

theorem property_eq_undefined (h : k ∉ fields.map Prod.fst) : property fields k = undefined := by
  rw [property, List.lookup_eq_none_iff.mpr, Option.getD_none]
  intro f hf
  simpa using fun heq : k = f.1 => h (heq ▸ List.mem_map_of_mem hf)

theorem lookup_assign (fields : Fields N) :
    (fields.map fun f => if f.1 = key then (key, value) else f).lookup k =
      if k = key then (fields.lookup k).map fun _ => value else fields.lookup k := by
  induction fields with
  | nil => simp
  | cons f fields ih =>
    obtain ⟨name, v⟩ := f
    rw [List.map_cons]
    by_cases hname : name = key
    · subst hname
      rw [if_pos rfl, lookup_cons, lookup_cons, ih]
      by_cases hk : k = name
      · simp [hk]
      · simp [hk]
    · rw [if_neg hname, lookup_cons, lookup_cons, ih]
      by_cases hk : k = name
      · simp [hk, hname]
      · simp [hk]

theorem property_setProperty (hk : k ≠ "__proto__") : property (setProperty fields key value) k =
    if k = key then value else property fields k := by
  unfold setProperty property
  by_cases hproto : key = "__proto__"
  · rw [if_pos hproto, if_neg (hproto ▸ hk)]
  rw [if_neg hproto]
  split
  · next hhas =>
    rw [lookup_assign]
    split
    · next heq =>
      obtain ⟨x, hx⟩ := Option.isSome_iff_exists.mp hhas
      rw [heq, hx, Option.map_some, Option.getD_some]
    · rfl
  · next hhas =>
    rw [List.lookup_append, lookup_cons, List.lookup_nil]
    split
    · next heq =>
      rw [heq, Option.not_isSome_iff_eq_none.mp hhas, Option.none_or, Option.getD_some]
    · rw [Option.or_none]

theorem mem_setProperty {f : String × Value N} (h : f ∈ setProperty fields key value) :
    f ∈ fields ∨ f = (key, value) := by
  unfold setProperty at h
  split_ifs at h
  · exact .inl h
  · obtain ⟨f', hf', rfl⟩ := List.mem_map.mp h
    split
    · exact .inr rfl
    · exact .inl hf'
  · exact (List.mem_append.mp h).imp_right List.mem_singleton.mp

theorem nodup_setProperty (h : (fields.map Prod.fst).Nodup) :
    ((setProperty fields key value).map Prod.fst).Nodup := by
  unfold setProperty
  split_ifs with hproto hhas
  · exact h
  · have hsame : (fields.map fun f => if f.1 = key then (key, value) else f).map Prod.fst =
        fields.map Prod.fst := by
      rw [List.map_map]
      refine List.map_congr_left fun f _ => ?_
      by_cases hf : f.1 = key
      · simp [hf]
      · simp [hf]
    rwa [hsame]
  · rw [List.map_append, List.map_singleton]
    refine List.nodup_append.mpr ⟨h, List.nodup_singleton _, ?_⟩
    rintro a ha b hb rfl
    obtain rfl := List.mem_singleton.mp hb
    obtain ⟨f, hf, hkey⟩ := List.mem_map.mp ha
    have hnone := List.lookup_eq_none_iff.mp (Option.not_isSome_iff_eq_none.mp hhas) f hf
    simp [hkey] at hnone

end Properties

/-- In no object of the value is there a property of the name of the method. -/
inductive Sound : Value N → Prop where
  | simple {value : Value N} (h : ∀ fields, value ≠ obj fields) : Sound value
  | obj {fields : Fields N} (hown : callable fields = true) (h : ∀ e ∈ fields, Sound e.2) :
      Sound (obj fields)

/-- Which holds of an object whose properties these are. -/
structure SoundFields (fields : Fields N) : Prop where
  callable : callable fields = true
  sound : ∀ e ∈ fields, Sound e.2

section Extend

variable {target result input fields defaultOptions userOptions : Fields N} {key k : String}
  {value old : Value N}

theorem callable_iff : callable fields = true ↔ "hasOwnProperty" ∉ fields.map Prod.fst := by
  rw [callable, Option.isNone_iff_eq_none, List.lookup_eq_none_iff]
  constructor
  · intro h hmem
    obtain ⟨f, hf, hkey⟩ := List.mem_map.mp hmem
    exact absurd (h f hf) (by simp [hkey])
  · intro h f hf
    simpa using fun heq : "hasOwnProperty" = f.1 => h (heq ▸ List.mem_map_of_mem hf)

theorem soundFields_nil : SoundFields ([] : Fields N) := ⟨rfl, fun _ h => absurd h List.not_mem_nil⟩

theorem SoundFields.ne {e : String × Value N} (h : SoundFields fields) (he : e ∈ fields) :
    e.1 ≠ "hasOwnProperty" := fun heq =>
  callable_iff.mp h.callable (heq ▸ List.mem_map_of_mem he)

theorem SoundFields.setProperty (h : SoundFields fields) (hkey : key ≠ "hasOwnProperty")
    (hvalue : Sound value) : SoundFields (setProperty fields key value) := by
  refine ⟨callable_iff.mpr fun hmem => ?_, fun f hf => ?_⟩
  · obtain ⟨f, hf, hown⟩ := List.mem_map.mp hmem
    rcases mem_setProperty hf with hf | rfl
    · exact h.ne hf hown
    · exact hkey hown
  · rcases mem_setProperty hf with hf | rfl
    · exact h.sound f hf
    · exact hvalue

/-- The properties of an object are copied one after another. -/
theorem soundFields_copyInto (ht : SoundFields target)
    (hinput : ∀ e ∈ input, e.1 ≠ "hasOwnProperty" ∧ ∃ v, copy e.2 = some v ∧ Sound v) :
    ∃ result, copyInto target input = some result ∧ SoundFields result := by
  induction input generalizing target with
  | nil => exact ⟨target, rfl, ht⟩
  | cons field input ih =>
    obtain ⟨key, value⟩ := field
    obtain ⟨hkey, v, hcopy, hv⟩ := hinput (key, value) List.mem_cons_self
    have hrest : ∀ e ∈ input, e.1 ≠ "hasOwnProperty" ∧ ∃ v, copy e.2 = some v ∧ Sound v :=
      fun e he => hinput e (List.mem_cons_of_mem _ he)
    obtain ⟨new, hnew, hsound⟩ : ∃ new, copyField target (key, value) = some new ∧
        SoundFields new := by
      unfold copyField
      split
      · exact ⟨target, rfl, ht⟩
      · next heq =>
        cases heq
        rw [hcopy]
        exact ⟨_, rfl, ht.setProperty hkey hv⟩
    rw [copyInto, hnew, Option.bind_some]
    exact ih hsound hrest

theorem Sound.copy (h : Sound value) : ∃ v, copy value = some v ∧ Sound v := by
  induction h with
  | @simple value h =>
    refine ⟨value, ?_, .simple h⟩
    unfold WidgetOptions.copy
    split
    · next fields => exact absurd rfl (h fields)
    · rfl
  | @obj fields hown h ih =>
    have hfields : SoundFields fields := ⟨hown, h⟩
    obtain ⟨result, hresult, hsound⟩ :=
      soundFields_copyInto soundFields_nil fun e he => ⟨hfields.ne he, ih e he⟩
    refine ⟨Value.obj result, ?_, .obj hsound.callable hsound.sound⟩
    rw [WidgetOptions.copy, if_pos hown, hresult, Option.map_some]

theorem Sound.copied (h : Sound value) :
    ∃ result, copied value = some result ∧ SoundFields result := by
  obtain ⟨v, hcopy, hv⟩ := h.copy
  cases h with
  | simple h =>
    refine ⟨[], ?_, soundFields_nil⟩
    unfold WidgetOptions.copied
    split
    · next fields => exact absurd rfl (h fields)
    · rfl
  | @obj fields hown h =>
    rw [WidgetOptions.copy, if_pos hown] at hcopy
    obtain ⟨result, hresult, rfl⟩ := Option.map_eq_some_iff.mp hcopy
    refine ⟨result, by rw [WidgetOptions.copied, if_pos hown, hresult], ?_⟩
    cases hv with
    | simple h => exact absurd rfl (h result)
    | obj hown h => exact ⟨hown, h⟩

theorem sound_property (h : SoundFields fields) : Sound (property fields k) := by
  rw [property]
  cases hlookup : fields.lookup k with
  | none => exact .simple fun fields h => by cases h
  | some v => exact h.sound _ (lookup_mem hlookup)

theorem soundFields_extendWith (ht : SoundFields target)
    (hinput : ∀ e ∈ input, ∀ target, SoundFields target →
      ∃ new, extendKey target e.1 e.2 = some new ∧ SoundFields new) :
    ∃ result, extendWith target input = some result ∧ SoundFields result := by
  induction input generalizing target with
  | nil => exact ⟨target, rfl, ht⟩
  | cons field input ih =>
    obtain ⟨key, value⟩ := field
    obtain ⟨new, hnew, hsound⟩ := hinput (key, value) List.mem_cons_self target ht
    rw [extendWith, extendField, hnew, Option.bind_some]
    exact ih hsound fun e he => hinput e (List.mem_cons_of_mem _ he)

theorem soundFields_extendKey (hkey : key ≠ "hasOwnProperty") (h : Sound value)
    (ht : SoundFields target) :
    ∃ new, extendKey target key value = some new ∧ SoundFields new := by
  induction h generalizing target key with
  | @simple value h =>
    unfold extendKey
    split
    · exact ⟨target, rfl, ht⟩
    · next fields => exact absurd rfl (h fields)
    · exact ⟨_, rfl, ht.setProperty hkey (.simple h)⟩
  | @obj fields hown h ih =>
    have hfields : SoundFields fields := ⟨hown, h⟩
    obtain ⟨new, hcopied, hnew⟩ := (sound_property ht (k := key)).copied
    obtain ⟨result, hresult, hsound⟩ := soundFields_extendWith hnew
      fun e he _ ht' => ih e he (hfields.ne he) ht'
    refine ⟨_, ?_, ht.setProperty hkey (.obj hsound.callable hsound.sound)⟩
    rw [extendKey, hcopied, Option.bind_some, if_pos hown, hresult, Option.map_some]

theorem soundFields_extend (ht : SoundFields target) (hinput : SoundFields input) :
    ∃ result, extend target input = some result ∧ SoundFields result := by
  rw [extend, if_pos hinput.callable]
  exact soundFields_extendWith ht fun e he target ht =>
    soundFields_extendKey (hinput.ne he) (hinput.sound e he) ht

/-- The property of an object that has `old`, when another gives it a value that is no object. -/
def merge (old value : Value N) : Value N :=
  match value with
  | undefined => old
  | value => value

theorem property_extendKey (h : extendKey target key value = some result) (hk : k ≠ "__proto__")
    (hsimple : k = key → ∀ fields, value ≠ obj fields) : property result k =
      if k = key then merge (property target k) value else property target k := by
  have hset : ∀ v : Value N, property (setProperty target key v) k =
      if k = key then v else property target k := fun v => property_setProperty hk
  unfold extendKey at h
  split at h
  · obtain rfl := Option.some.inj h
    rw [merge, ite_self]
  · next fields =>
    have hne : k ≠ key := fun heq => hsimple heq fields rfl
    obtain ⟨new, -, h⟩ := Option.bind_eq_some_iff.mp h
    split at h
    · obtain ⟨new', -, rfl⟩ := Option.map_eq_some_iff.mp h
      rw [hset, if_neg hne, if_neg hne]
    · cases h
  · obtain rfl := Option.some.inj h
    rw [hset, merge]
    assumption

theorem nodup_extendKey (h : extendKey target key value = some result)
    (ht : (target.map Prod.fst).Nodup) : (result.map Prod.fst).Nodup := by
  unfold extendKey at h
  split at h
  · exact Option.some.inj h ▸ ht
  · obtain ⟨new, -, h⟩ := Option.bind_eq_some_iff.mp h
    split at h
    · obtain ⟨new', -, rfl⟩ := Option.map_eq_some_iff.mp h
      exact nodup_setProperty ht
    · cases h
  · exact Option.some.inj h ▸ nodup_setProperty ht

theorem nodup_extendWith (h : extendWith target input = some result)
    (ht : (target.map Prod.fst).Nodup) : (result.map Prod.fst).Nodup := by
  induction input generalizing target with
  | nil => exact Option.some.inj h ▸ ht
  | cons field input ih =>
    obtain ⟨key, value⟩ := field
    rw [extendWith, extendField] at h
    obtain ⟨new, hnew, h⟩ := Option.bind_eq_some_iff.mp h
    exact ih h (nodup_extendKey hnew ht)

theorem extendWith_of_extend (h : extend target input = some result) :
    extendWith target input = some result := (Option.ite_none_right_eq_some.mp h).2

/-- A property that is no object is what the second object has, or else what the first has. -/
theorem property_extend (h : extendWith target input = some result)
    (hkeys : (input.map Prod.fst).Nodup) (hk : k ≠ "__proto__")
    (hsimple : ∀ fields, property input k ≠ obj fields) :
    property result k = merge (property target k) (property input k) := by
  induction input generalizing target with
  | nil =>
    obtain rfl := Option.some.inj h
    rfl
  | cons field input ih =>
    obtain ⟨key, value⟩ := field
    obtain ⟨hnew, hkeys⟩ := List.nodup_cons.mp hkeys
    rw [extendWith] at h
    obtain ⟨new, hextend, h⟩ := Option.bind_eq_some_iff.mp h
    rw [property_cons] at hsimple ⊢
    by_cases heq : k = key
    · rw [if_pos heq] at hsimple ⊢
      have hnone : property input k = undefined := property_eq_undefined (heq ▸ hnew)
      rw [ih h hkeys (by simp [hnone]), property_extendKey hextend hk fun _ => hsimple, if_pos heq,
        hnone]
      rfl
    · rw [if_neg heq] at hsimple ⊢
      rw [ih h hkeys hsimple, property_extendKey hextend hk fun h => absurd h heq, if_neg heq]

theorem property_assigned (hkeys : (input.map Prod.fst).Nodup) (hk : k ≠ "__proto__")
    (f : String × Value N → Value N) :
    property (input.foldl (fun fields e => setProperty fields e.1 (f e)) fields) k =
      if k ∈ input.map Prod.fst then f (k, property input k) else property fields k := by
  induction input generalizing fields with
  | nil => rfl
  | cons e input ih =>
    obtain ⟨key, value⟩ := e
    obtain ⟨hnew, hkeys⟩ := List.nodup_cons.mp hkeys
    rw [List.foldl_cons, ih hkeys, property_setProperty hk, property_cons, List.map_cons]
    by_cases hkey : k = key
    · have hnew' : k ∉ input.map Prod.fst := hkey ▸ hnew
      rw [if_neg hnew', if_pos hkey, if_pos (List.mem_cons.mpr (.inl hkey)), if_pos hkey, hkey]
    · rw [if_neg hkey, if_neg hkey]
      refine if_congr ?_ rfl rfl
      rw [List.mem_cons, or_iff_right hkey]

theorem nodup_assigned (f : String × Value N → Value N) (h : (fields.map Prod.fst).Nodup) :
    ((input.foldl (fun fields e => setProperty fields e.1 (f e)) fields).map Prod.fst).Nodup := by
  induction input generalizing fields with
  | nil => exact h
  | cons e input ih => exact ih (nodup_setProperty h)

theorem soundFields_assigned (f : String × Value N → Value N) (h : SoundFields fields)
    (hinput : ∀ e ∈ input, e.1 ≠ "hasOwnProperty" ∧ Sound (f e)) :
    SoundFields (input.foldl (fun fields e => setProperty fields e.1 (f e)) fields) := by
  induction input generalizing fields with
  | nil => exact h
  | cons e input ih =>
    obtain ⟨hkey, hvalue⟩ := hinput e List.mem_cons_self
    exact ih (h.setProperty hkey hvalue) fun e he => hinput e (List.mem_cons_of_mem _ he)

theorem sound_optionValue {default : Value N} (h : Sound value) :
    Sound (optionValue default value) := by
  unfold optionValue
  split
  · exact .simple fun fields h => by cases h
  · exact h

/-- An option is what the user sets, where `true` stands for a blank string, or else the default. -/
theorem property_extendOptions [Number N] (hkeys : (userOptions.map Prod.fst).Nodup)
    (hdefaults : (defaultOptions.map Prod.fst).Nodup) (hlike : isArrayLike userOptions = false)
    (huser : SoundFields userOptions) (hsound : SoundFields defaultOptions) : ∃ newOptions,
      extendOptions defaultOptions userOptions = some newOptions ∧
        (newOptions.map Prod.fst).Nodup ∧ SoundFields newOptions ∧
        ∀ k, k ≠ "__proto__" → (∀ fields, property defaultOptions k ≠ obj fields) →
          property newOptions k = if k ∈ userOptions.map Prod.fst then
            optionValue (property defaultOptions k) (property userOptions k)
          else property defaultOptions k := by
  obtain ⟨copy, hcopy, hcopied⟩ := soundFields_extend soundFields_nil hsound
  obtain ⟨new, hnew, hsound'⟩ := soundFields_extend hcopied huser
  have hcopy' := extendWith_of_extend hcopy
  have hnew' := extendWith_of_extend hnew
  refine ⟨userOptions.foldl (fun fields e => setProperty fields e.1
    (optionValue (property defaultOptions e.1) e.2)) new, ?_, ?_, ?_, fun k hk hsimple => ?_⟩
  · rw [extendOptions, hcopy, Option.bind_eq_bind, Option.bind_some, hnew, each_obj hlike]
    rfl
  · exact nodup_assigned (fun e => optionValue (property defaultOptions e.1) e.2)
      (nodup_extendWith hnew' (nodup_extendWith hcopy' List.nodup_nil))
  · exact soundFields_assigned (fun e => optionValue (property defaultOptions e.1) e.2) hsound'
      fun e he => ⟨huser.ne he, sound_optionValue (huser.sound e he)⟩
  rw [property_assigned hkeys hk fun e => optionValue (property defaultOptions e.1) e.2]
  split
  · rfl
  · next hnot =>
    have hnone : property userOptions k = undefined := property_eq_undefined hnot
    rw [property_extend hnew' hkeys hk (by simp [hnone]), hnone,
      property_extend hcopy' hdefaults hk hsimple]
    cases property defaultOptions k <;> rfl

theorem extendOptions_throws [Number N] (h : callable userOptions = false) :
    extendOptions defaultOptions userOptions = none := by
  rw [extendOptions]
  cases extend [] defaultOptions with
  | none => rfl
  | some copy => simp [extend, h]

end Extend

/-- Every capital letter becomes a hyphen and the small letter. -/
def toKebab (s : List Char) : List Char :=
  s.flatMap fun c => if isUpper c then ['-', c.toLower] else [c]

theorem toUpper_lower {c : Char} (h : isLower c = true) :
    isUpper c.toUpper = true ∧ c.toUpper.toLower = c := by
  have hrange : 97 ≤ c.toNat ∧ c.toNat ≤ 122 := by
    simp only [isLower, Bool.and_eq_true, decide_eq_true_eq, Char.le_def] at h
    exact ⟨UInt32.le_iff_toNat_le.mp h.1, UInt32.le_iff_toNat_le.mp h.2⟩
  obtain ⟨n, hn⟩ : ∃ n, n = c.toNat := ⟨_, rfl⟩
  have hc : c = Char.ofNat n := by rw [hn, Char.ofNat_toNat]
  rw [← hn] at hrange
  obtain ⟨hlow, hhigh⟩ := hrange
  rw [hc]
  clear hc hn h
  interval_cases n <;> decide

/-- A name of small letters can be read off the name of its option. -/
theorem toKebab_fromKebab {s : List Char} (h : ∀ c ∈ s, isUpper c = false) :
    toKebab (fromKebab s) = s := by
  induction s using fromKebab.induct with
  | case1 => rfl
  | case2 c => simp [fromKebab, toKebab, h]
  | case3 c c' s hyphen ih =>
    obtain ⟨rfl, hletter⟩ := hyphen
    have hlower : isLower c' = true := by simpa [h c' (by simp)] using hletter
    obtain ⟨hupper, hback⟩ := toUpper_lower hlower
    have hrest := ih fun a ha => h a (by simp [ha])
    rw [fromKebab, if_pos ⟨rfl, hletter⟩]
    rw [toKebab] at hrest ⊢
    rw [List.flatMap_cons, hrest, hupper, if_pos rfl, hback]
    rfl
  | case4 c c' s hyphen ih =>
    have hrest := ih fun a ha => h a (List.mem_cons_of_mem c ha)
    rw [fromKebab, if_neg hyphen]
    rw [toKebab] at hrest ⊢
    rw [List.flatMap_cons, hrest, h c (by simp)]
    rfl

def SmallLetters (name : String) : Prop := ∀ c ∈ name.toList, isUpper c = false

instance (name : String) : Decidable (SmallLetters name) :=
  -- over the letters of the name, not over all characters
  List.decidableBAll (fun c => isUpper c = false) name.toList

theorem toList_of_optionName {name key : String} (hname : SmallLetters name)
    (h : optionName name = some key) :
    name.toList = "data-gr-opt-".toList ++ toKebab key.toList := by
  obtain ⟨hdata, hkey⟩ := Option.ite_none_right_eq_some.mp h
  obtain ⟨rest, hrest⟩ := List.isPrefixOf_iff_prefix.mp hdata
  have hdrop : name.toList.drop 12 = rest := by
    rw [← hrest]
    exact List.drop_left' rfl
  have hkebab : toKebab (fromKebab rest) = rest :=
    toKebab_fromKebab fun c hc => hname c (hrest ▸ List.mem_append_right _ hc)
  have hlist : key.toList = fromKebab rest := by
    rw [← Option.some_inj.mp hkey, hdrop, String.toList_ofList]
  rw [hlist, hkebab, hrest]

theorem optionName_inj {name name' key : String} (hname : SmallLetters name)
    (hname' : SmallLetters name') (h : optionName name = some key)
    (h' : optionName name' = some key) : name = name' :=
  String.toList_inj.mp ((toList_of_optionName hname h).trans (toList_of_optionName hname' h').symm)

section Attributes

variable {attributes : List (String × String)} {defaultOptions fields : Fields N}
  {key k : String} {value : Value N} {f : String × Value N}

/-- The value that an attribute gives to an option with this default. -/
def given (default : Value N) (v : String) : Value N :=
  optionValue default (if v = "" then bool true else str v)

theorem given_ne_obj {default : Value N} {v : String} (fields : Fields N) :
    given default v ≠ obj fields := by
  unfold given optionValue
  split
  · simp
  · split
    · simp
    · simp

/-- The options, one for each attribute that names one. -/
def entries (attributes : List (String × String)) : Fields N :=
  attributes.filterMap fun a =>
    (optionName a.1).map (·, if a.2 = "" then bool true else str a.2)

theorem entry_of_mem (h : f ∈ (entries attributes : Fields N)) : ∃ a ∈ attributes,
    optionName a.1 = some f.1 ∧ f.2 = if a.2 = "" then bool true else str a.2 := by
  obtain ⟨a, ha, hf⟩ := List.mem_filterMap.mp h
  obtain ⟨key, hkey, rfl⟩ := Option.map_eq_some_iff.mp hf
  exact ⟨a, ha, hkey, rfl⟩

theorem mem_assigned (input : Fields N)
    (hf : f ∈ input.foldl (fun fields e => setProperty fields e.1 e.2) fields) :
    f ∈ fields ∨ f ∈ input := by
  induction input generalizing fields with
  | nil => exact .inl hf
  | cons e input ih =>
    rcases ih hf with hf | hf
    · refine (mem_setProperty hf).imp_right fun heq => ?_
      exact heq ▸ List.mem_cons_self
    · exact .inr (List.mem_cons_of_mem e hf)

theorem isArrayLike_eq_false [Number N] (h : ∀ f ∈ fields, ∀ n, f.2 ≠ num n) :
    isArrayLike fields = false := by
  unfold isArrayLike
  split
  · next n hlength => exact absurd rfl (h _ (lookup_mem hlength) n)
  · rfl

theorem collected_eq [Number N] (attributes : List (String × String)) :
    (collected attributes : Fields N) =
      (entries attributes).foldl (fun fields e => setProperty fields e.1 e.2) [] := by
  have hlike : isArrayLike (attr attributes : Fields N) = false := by
    refine isArrayLike_eq_false fun f hf n => ?_
    obtain ⟨a, -, rfl⟩ := List.mem_map.mp hf
    dsimp only
    split
    · simp
    · simp
  rw [collected, each_obj hlike, Option.getD_some, attr, List.foldl_map, entries,
    List.foldl_filterMap]
  refine congrArg (fun step => attributes.foldl step []) ?_
  funext options a
  dsimp only
  cases optionName a.1 with
  | none => rfl
  | some key => rfl

theorem property_entries (hsmall : ∀ a ∈ attributes, SmallLetters a.1)
    (hnames : (attributes.map Prod.fst).Nodup) :
    ((entries attributes : Fields N).map Prod.fst).Nodup ∧
      ∀ k, property (entries attributes : Fields N) k =
        (attributes.find? fun a => optionName a.1 = some k).elim undefined fun a =>
          if a.2 = "" then bool true else str a.2 := by
  induction attributes with
  | nil => exact ⟨List.nodup_nil, fun _ => rfl⟩
  | cons a attributes ih =>
    obtain ⟨hnew, hnames⟩ := List.nodup_cons.mp hnames
    obtain ⟨hnodup, hproperty⟩ := ih (fun b hb => hsmall b (List.mem_cons_of_mem a hb)) hnames
    cases hname : optionName a.1 with
    | none =>
      have hsame : (entries (a :: attributes) : Fields N) = entries attributes := by
        rw [entries, List.filterMap_cons_none (by rw [hname, Option.map_none]), entries]
      refine ⟨hsame ▸ hnodup, fun k => ?_⟩
      rw [hsame, hproperty, List.find?_cons_of_neg (by simp [hname])]
    | some key =>
      have hcons : (entries (a :: attributes) : Fields N) =
          (key, if a.2 = "" then bool true else str a.2) :: entries attributes := by
        rw [entries, List.filterMap_cons_some (by rw [hname, Option.map_some]), entries]
      rw [hcons]
      refine ⟨List.nodup_cons.mpr ⟨fun hmem => ?_, hnodup⟩, fun k => ?_⟩
      · obtain ⟨f, hf, hkey⟩ := List.mem_map.mp hmem
        obtain ⟨b, hb, hb', -⟩ := entry_of_mem hf
        have hsame : b.1 = a.1 := optionName_inj (hsmall b (List.mem_cons_of_mem a hb))
          (hsmall a List.mem_cons_self) (hb'.trans (congrArg some hkey)) hname
        exact hnew (hsame ▸ List.mem_map_of_mem hb)
      · rw [property_cons]
        by_cases hk : k = key
        · rw [if_pos hk, List.find?_cons_of_pos (by simp [hname, hk])]
          rfl
        · rw [if_neg hk, hproperty, List.find?_cons_of_neg (by simp [hname, Ne.symm hk])]

theorem mem_collected [Number N] (h : f ∈ (collected attributes : Fields N)) :
    ∃ a ∈ attributes, optionName a.1 = some f.1 ∧
      f.2 = if a.2 = "" then bool true else str a.2 := by
  rw [collected_eq] at h
  exact entry_of_mem ((mem_assigned _ h).resolve_left List.not_mem_nil)

theorem property_collected [Number N] (hsmall : ∀ a ∈ attributes, SmallLetters a.1)
    (hnames : (attributes.map Prod.fst).Nodup) (hk : k ≠ "__proto__") :
    property (collected attributes : Fields N) k =
      (attributes.find? fun a => optionName a.1 = some k).elim undefined fun a =>
        if a.2 = "" then bool true else str a.2 := by
  obtain ⟨hnodup, hproperty⟩ := property_entries (N := N) hsmall hnames
  rw [collected_eq, property_assigned hnodup hk Prod.snd, ← hproperty]
  split
  · rfl
  · next hnone => rw [property_eq_undefined hnone, property, List.lookup_nil, Option.getD_none]

theorem mem_keys_collected [Number N] (hsmall : ∀ a ∈ attributes, SmallLetters a.1)
    (hnames : (attributes.map Prod.fst).Nodup) (hk : k ≠ "__proto__") :
    k ∈ (collected attributes : Fields N).map Prod.fst ↔
      ∃ a ∈ attributes, optionName a.1 = some k := by
  constructor
  · intro hmem
    obtain ⟨f, hf, rfl⟩ := List.mem_map.mp hmem
    obtain ⟨a, ha, hname, -⟩ := mem_collected hf
    exact ⟨a, ha, hname⟩
  · rintro ⟨a, ha, hname⟩
    by_contra hnot
    have hnone := property_collected (N := N) hsmall hnames hk
    have hfound : (attributes.find? fun a => optionName a.1 = some k).isSome = true :=
      List.find?_isSome.mpr ⟨a, ha, by simp [hname]⟩
    obtain ⟨b, hb⟩ := Option.isSome_iff_exists.mp hfound
    rw [property_eq_undefined hnot, hb, Option.elim_some] at hnone
    split at hnone
    · cases hnone
    · cases hnone

theorem simple_of_mem_collected [Number N] (hf : f ∈ (collected attributes : Fields N)) :
    (∀ n, f.2 ≠ num n) ∧ ∀ fields, f.2 ≠ obj fields := by
  obtain ⟨a, -, -, hvalue⟩ := mem_collected hf
  rw [hvalue]
  split
  · simp
  · simp

/-- A widget is not made when an attribute is named like the method that `extend` calls. Otherwise
an option is what the attribute says that names it, and the default when there is none. -/
theorem option_eq [Number N] (hnames : (attributes.map Prod.fst).Nodup)
    (hsmall : ∀ a ∈ attributes, SmallLetters a.1)
    (hdefaults : (defaultOptions.map Prod.fst).Nodup) (hsound : SoundFields defaultOptions) :
    ((∃ a ∈ attributes, optionName a.1 = some "hasOwnProperty") →
      widgetOptions defaultOptions attributes = none) ∧
    ((∀ a ∈ attributes, optionName a.1 ≠ some "hasOwnProperty") →
      ∃ options, widgetOptions defaultOptions attributes = some options ∧
        ∀ k, k ≠ "__proto__" → (∀ fields, property defaultOptions k ≠ obj fields) →
          property options k = (attributes.find? fun a => optionName a.1 = some k).elim
            (property defaultOptions k) fun a => given (property defaultOptions k) a.2) := by
  have hown : callable (collected attributes : Fields N) = true ↔
      ∀ a ∈ attributes, optionName a.1 ≠ some "hasOwnProperty" := by
    rw [callable_iff, mem_keys_collected hsmall hnames (by decide)]
    exact ⟨fun h a ha hname => h ⟨a, ha, hname⟩, fun h ⟨a, ha, hname⟩ => h a ha hname⟩
  refine ⟨fun ⟨a, ha, hname⟩ => ?_, fun hnone => ?_⟩
  · have hthrows : callable (collected attributes : Fields N) = false :=
      Bool.eq_false_iff.mpr fun h => hown.mp h a ha hname
    rw [widgetOptions, extendOptions_throws hthrows, Option.bind_none]
  have hlike : isArrayLike (collected attributes : Fields N) = false :=
    isArrayLike_eq_false fun f hf => (simple_of_mem_collected hf).1
  have huser : SoundFields (collected attributes : Fields N) :=
    ⟨hown.mpr hnone, fun f hf => .simple (simple_of_mem_collected hf).2⟩
  have hnodup : ((collected attributes : Fields N).map Prod.fst).Nodup := by
    rw [collected_eq]
    exact nodup_assigned Prod.snd List.nodup_nil
  obtain ⟨newOptions, hnew, hnodup', hsound', hproperty⟩ :=
    property_extendOptions hnodup hdefaults hlike huser hsound
  obtain ⟨options, hoptions, -⟩ := soundFields_extend soundFields_nil hsound'
  refine ⟨options, by rw [widgetOptions, hnew, Option.bind_some, hoptions], fun k hk hsimple => ?_⟩
  have hoption : property newOptions k = (attributes.find? fun a => optionName a.1 = some k).elim
      (property defaultOptions k) fun a => given (property defaultOptions k) a.2 := by
    rw [hproperty k hk hsimple, property_collected hsmall hnames hk]
    cases hfind : attributes.find? fun a => optionName a.1 = some k with
    | none =>
      rw [if_neg, Option.elim_none]
      rw [mem_keys_collected hsmall hnames hk]
      rintro ⟨a, ha, hname⟩
      exact List.find?_eq_none.mp hfind a ha (decide_eq_true hname)
    | some a =>
      have hname : optionName a.1 = some k := by simpa using List.find?_some hfind
      rw [if_pos, Option.elim_some, Option.elim_some, given]
      exact (mem_keys_collected hsmall hnames hk).mpr ⟨a, List.mem_of_find?_eq_some hfind, hname⟩
  have hsimple' : ∀ fields, property newOptions k ≠ obj fields := by
    rw [hoption]
    cases attributes.find? fun a => optionName a.1 = some k with
    | none => exact hsimple
    | some a => exact given_ne_obj
  rw [property_extend (extendWith_of_extend hoptions) hnodup' hk hsimple', hoption]
  cases (attributes.find? fun a => optionName a.1 = some k).elim (property defaultOptions k)
    fun a => given (property defaultOptions k) a.2 <;> rfl

end Attributes

def selectTable : Fields ℤ :=
  [("selectedId", .str ""), ("scrollable", .bool false), ("reselect", .bool false)]

/-- The attributes of a table that is not to scroll. -/
def fruitTable : List (String × String) :=
  [("id", "list"), ("data-gr-opt-selected-id", ""), ("data-gr-opt-scrollable", "false")]

theorem soundFields_selectTable : SoundFields selectTable := by
  refine ⟨rfl, fun f hf => .simple fun fields hobj => ?_⟩
  simp only [selectTable, List.mem_cons, List.not_mem_nil, or_false] at hf
  rcases hf with rfl | rfl | rfl <;> cases hobj

theorem option_eq_scrollable : ∃ options, widgetOptions selectTable fruitTable = some options ∧
    property options "scrollable" = str "false" ∧ property options "reselect" = .bool false := by
  have hsimple : ∀ k ∈ ["scrollable", "reselect"], property selectTable k = .bool false := by
    intro k hk
    simp only [List.mem_cons, List.not_mem_nil, or_false] at hk
    rcases hk with rfl | rfl <;> rfl
  have hnames : (fruitTable.map Prod.fst).Nodup := by decide
  have hsmall : ∀ a ∈ fruitTable, SmallLetters a.1 := by decide
  have hdefaults : (selectTable.map Prod.fst).Nodup := by decide
  obtain ⟨options, hoptions, hproperty⟩ :=
    (option_eq hnames hsmall hdefaults soundFields_selectTable).2 (by decide)
  refine ⟨options, hoptions, ?_, ?_⟩
  · refine (hproperty "scrollable" (by decide) fun fields h => ?_).trans (by rfl)
    cases (hsimple _ (by simp)).symm.trans h
  · refine (hproperty "reselect" (by decide) fun fields h => ?_).trans (by rfl)
    cases (hsimple _ (by simp)).symm.trans h

end GoraddServe.WidgetOptions
