import GoraddServe.ResponseWriters

/-!
# The channels of watchers

The channel of a table, and of a record in it, is made of a database key, the name of the table
and the primary key as it is printed, with dots between them. A dot in one of these parts looks
like one between them, so the channel says what it is the channel of only where the number of dots
in a part is known.
-/
namespace GoraddServe.WatchKeys

/-- A value of `interface{}`: a string, or one of another type, such as an integer or nil. -/
inductive PrimaryKey (α : Type) where
  | string (s : String)
  | other (v : α)
  deriving DecidableEq

/-- What the code calls of Go's library for values of other types than string: `fmt.Sprint`,
`json.Marshal` with the text of its error, and the form that `json.Marshal` gives to a string. -/
structure Runtime (α : Type) where
  sprint : α → String
  marshal : α → Except String String
  quote : String → String

variable {α : Type}

namespace PrimaryKey

/-- `fmt.Sprint(pk)` -/
def sprint (rt : Runtime α) : PrimaryKey α → String
  | string s => s
  | other v => rt.sprint v

/-- `json.Marshal(pk)` -/
def marshal (rt : Runtime α) : PrimaryKey α → Except String String
  | string s => .ok (rt.quote s)
  | other v => rt.marshal v

/-- `pk == ""` -/
def isEmpty : PrimaryKey α → Bool
  | string s => s == ""
  | other _ => false

end PrimaryKey

/-- `w.MakeKey(ctx, dbKey, table, pk)` of a `DefaultWatcher` -/
def makeKey (rt : Runtime α) (dbKey table : String) (pk : PrimaryKey α) : String :=
  let k := dbKey ++ "." ++ table
  if !pk.isEmpty then k ++ ("." ++ pk.sprint rt) else k

theorem makeKey_table (rt : Runtime α) (dbKey table : String) :
    makeKey rt dbKey table (.string "") = dbKey ++ "." ++ table := rfl

theorem makeKey_record (rt : Runtime α) (dbKey table : String) {pk : PrimaryKey α}
    (hpk : pk.isEmpty = false) :
    makeKey rt dbKey table pk = dbKey ++ "." ++ table ++ ("." ++ pk.sprint rt) := by
  rw [makeKey, hpk]
  rfl

/-- A table, or the record in it that has the primary key. The empty string is no key. -/
structure Target (α : Type) where
  dbKey : String
  table : String
  pk : PrimaryKey α

def Target.printed (rt : Runtime α) (t : Target α) : Option String :=
  if t.pk.isEmpty then none else some (t.pk.sprint rt)

def Target.channel (rt : Runtime α) (t : Target α) : String := makeKey rt t.dbKey t.table t.pk

def dots (s : String) : ℕ := s.toList.count '.'

section Separators

variable {β : Type*} [BEq β] [LawfulBEq β] {sep : β} {a b x y : List β}

/-- As many separators are in the first part as before it is over. -/
theorem append_cons_inj_of_count (hcount : a.count sep = b.count sep)
    (h : a ++ sep :: x = b ++ sep :: y) : a = b ∧ x = y := by
  induction a generalizing b with
  | nil =>
    cases b with
    | nil => exact ⟨rfl, (List.cons.inj h).2⟩
    | cons d b =>
      obtain ⟨rfl, -⟩ := List.cons.inj h
      simp at hcount
  | cons c a ih =>
    cases b with
    | nil =>
      obtain ⟨rfl, -⟩ := List.cons.inj h
      simp at hcount
    | cons d b =>
      obtain ⟨rfl, htail⟩ := List.cons.inj h
      have hcount' : a.count sep = b.count sep := by simpa [List.count_cons] using hcount
      obtain ⟨rfl, hx⟩ := ih hcount' htail
      exact ⟨rfl, hx⟩

theorem append_cons_ne_of_count (hcount : a.count sep = b.count sep) : a ++ sep :: x ≠ b := by
  intro h
  have htotal := congrArg (List.count sep) h
  rw [List.count_append, List.count_cons_self] at htotal
  omega

end Separators

section Channels

variable {rt : Runtime α} {t u : Target α}

theorem toList_channel : (t.channel rt).toList = t.dbKey.toList ++ '.' ::
    (t.table.toList ++ (t.printed rt).elim [] fun pk => '.' :: pk.toList) := by
  rw [Target.channel, makeKey, Target.printed]
  cases t.pk.isEmpty <;> simp [String.toList_append]

/-- Two targets whose database keys have as many dots, and whose tables have, have the same channel
if and only if they are the same target. -/
theorem channel_eq_iff (hdb : dots t.dbKey = dots u.dbKey) (htable : dots t.table = dots u.table) :
    t.channel rt = u.channel rt ↔
      t.dbKey = u.dbKey ∧ t.table = u.table ∧ t.printed rt = u.printed rt := by
  rw [← String.toList_inj, toList_channel, toList_channel]
  constructor
  · intro h
    obtain ⟨hdb', hrest⟩ := append_cons_inj_of_count hdb h
    refine ⟨String.toList_inj.mp hdb', ?_⟩
    cases ht : t.printed rt with
    | none =>
      cases hu : u.printed rt with
      | none =>
        rw [ht, hu] at hrest
        exact ⟨String.toList_inj.mp (by simpa using hrest), rfl⟩
      | some pk =>
        rw [ht, hu] at hrest
        exact absurd (by simpa using hrest.symm) (append_cons_ne_of_count htable.symm)
    | some pk =>
      cases hu : u.printed rt with
      | none =>
        rw [ht, hu] at hrest
        exact absurd (by simpa using hrest) (append_cons_ne_of_count htable)
      | some pk' =>
        rw [ht, hu] at hrest
        obtain ⟨htable', hpk⟩ := append_cons_inj_of_count htable hrest
        exact ⟨String.toList_inj.mp htable', congrArg some (String.toList_inj.mp hpk)⟩
  · rintro ⟨hdb', htable', hprinted⟩
    rw [hdb', htable', hprinted]

theorem channel_record {pk : String} (hprinted : t.printed rt = some pk) :
    t.channel rt = Target.channel rt ⟨t.dbKey, t.table ++ ("." ++ pk), .string ""⟩ := by
  rw [← String.toList_inj, toList_channel, toList_channel, hprinted]
  simp [Target.printed, PrimaryKey.isEmpty, String.toList_append]

end Channels

def plainRuntime : Runtime ℕ where
  sprint := toString
  marshal n := .ok (toString n)
  quote s := "\"" ++ s ++ "\""

/-- The record with the number 7 and the one with the text 7. -/
theorem channel_eq_iff_orders :
    Target.channel plainRuntime ⟨"shop", "public.orders", .other 7⟩ =
      Target.channel plainRuntime ⟨"shop", "public.orders", .string "7"⟩ :=
  (channel_eq_iff (by decide) (by decide)).mpr ⟨rfl, rfl, by decide⟩

/-- The record 7 of one table, and a table whose name ends in 7. -/
theorem channels_collide : ¬∀ t u : Target ℕ, t.channel plainRuntime = u.channel plainRuntime →
    t.dbKey = u.dbKey ∧ t.table = u.table ∧ t.printed plainRuntime = u.printed plainRuntime := by
  intro h
  have hsame := h ⟨"shop", "orders", .other 7⟩ _ (channel_record rfl)
  revert hsame
  decide

end GoraddServe.WatchKeys
