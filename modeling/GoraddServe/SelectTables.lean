import GoraddServe.LabelledRuns
import Mathlib.Data.Finset.Basic
import Mathlib.Data.List.GetD
import Mathlib.Tactic.Tauto

/-!
# Tables in which a row is selected

A row of a select table is selected by a click or with the keys. The row that was selected before
it loses its class, if it is in the same section of the table. Rows of the class `nosel` cannot be
selected, but one that is tried takes the class from the row that is.
-/
namespace GoraddServe.SelectTables
open LabelledRuns

/-- A row, with its `data-id`. -/
structure Row where
  id : Option String
  nosel : Bool
  deriving DecidableEq

/-- The number of a section, and of a row in it. -/
abbrev Position := ℕ × ℕ

/-- The rows in the sections of the table, and the option `reselect`. -/
structure Table where
  sections : List (List Row)
  reselect : Bool

namespace Table

variable (t : Table)

def row (p : Position) : Option Row := (t.sections.getD p.1 [])[p.2]?

def positions : List Position :=
  (List.range t.sections.length).flatMap fun i =>
    (List.range (t.sections.getD i []).length).map (i, ·)

/-- `tr[data-id='…']` -/
def rowOf (id : String) : Option Position :=
  t.positions.find? fun p => (t.row p).bind Row.id = some id

end Table

inductive Key where
  | up
  | down
  | «end»
  | home
  deriving DecidableEq

/-- The rows that have the class `selected`, the option `selectedId`, and the values that have been
set for the control and sent with the event `gr-rowselected`. -/
structure Widget where
  selected : Finset Position
  selectedId : Option String
  sent : List (Option String)
  deriving DecidableEq

def create (selectedId : String) : Widget := ⟨∅, some selectedId, []⟩

namespace Widget

variable (t : Table) (w : Widget)

/-- The row of the `selectedId`, when that is not empty. -/
def current : Option Position := (w.selectedId.filter (· ≠ "")).bind t.rowOf

/-- The first row of the section that has the class loses it. -/
def unselect (p : Position) : Finset Position :=
  (t.positions.find? fun q => q.1 = p.1 ∧ q ∈ w.selected).elim w.selected w.selected.erase

def selectRow (p : Position) : Widget :=
  match t.row p with
  | some ⟨id, false⟩ => { w with selected := insert p (w.unselect t p), selectedId := id }
  | _ => { w with selected := w.unselect t p }

def initSelectedId : Widget := (w.current t).elim w (w.selectRow t)

def handleRowClick (p : Position) : Widget :=
  let prevSelId := w.selectedId
  let w := w.selectRow t p
  if (t.reselect ∨ w.selectedId ≠ prevSelId) ∧ p ∈ w.selected then
    { w with sent := w.sent ++ [w.selectedId] }
  else w

/-- The row to which a key goes. The last row is the first one that is the last in its section. -/
def newRow (p : Position) : Key → Option Position
  | .up => if p.2 = 0 then none else some (p.1, p.2 - 1)
  | .down => if (t.row (p.1, p.2 + 1)).isSome then some (p.1, p.2 + 1) else none
  | .end => t.positions.find? fun q => (t.row (q.1, q.2 + 1)).isNone
  | .home => t.positions.head?

/-- The row that a key tries to select, unless its id is that of the current row. -/
def keyRow (key : Key) : Option Position :=
  (w.current t).bind fun p => (newRow t p key).filter fun q =>
    (t.row q).bind Row.id ≠ w.selectedId

def handleKeyDown (key : Key) : Widget :=
  match w.keyRow t key with
  | none => w
  | some p =>
    let w := w.selectRow t p
    { w with sent := w.sent ++ [w.selectedId] }

end Widget

inductive Action where
  | initSelectedId
  | click (p : Position)
  | keyDown (key : Key)
  deriving DecidableEq

def step (t : Table) (w : Widget) : Action → Option Widget
  | .initSelectedId => some (w.initSelectedId t)
  | .click p => if (t.row p).isSome then some (w.handleRowClick t p) else none
  | .keyDown key => some (w.handleKeyDown t key)

/-- The row on which the step calls `_selectRow`. -/
def tried (t : Table) (w : Widget) : Action → Option Position
  | .initSelectedId => w.current t
  | .click p => some p
  | .keyDown key => w.keyRow t key

variable {t : Table} {w v : Widget} {a : Action} {p q : Position} {row : Row}

theorem mem_positions : p ∈ t.positions ↔ ∃ row, t.row p = some row := by
  obtain ⟨i, j⟩ := p
  simp only [Table.positions, Table.row, List.mem_flatMap, List.mem_range, List.mem_map,
    Prod.mk.injEq]
  constructor
  · rintro ⟨_, -, _, hj, rfl, rfl⟩
    exact ⟨_, List.getElem?_eq_getElem hj⟩
  · rintro ⟨row, hrow⟩
    have hj := (List.getElem?_eq_some_iff.mp hrow).1
    refine ⟨i, ?_, j, hj, rfl, rfl⟩
    by_contra hi
    rw [List.getD_eq_default _ _ (Nat.le_of_not_lt hi)] at hj
    exact absurd hj (Nat.not_lt_zero j)

theorem rowOf_eq_some {id : String} (h : t.rowOf id = some p) :
    ∃ row, t.row p = some row ∧ row.id = some id := by
  obtain ⟨row, hrow⟩ := mem_positions.mp (List.mem_of_find?_eq_some h)
  have hid := List.find?_some h
  rw [decide_eq_true_eq, hrow] at hid
  exact ⟨row, hrow, hid⟩

theorem current_eq_some (h : w.current t = some p) :
    ∃ row, t.row p = some row ∧ row.id = w.selectedId := by
  obtain ⟨id, hid, hrow⟩ := Option.bind_eq_some_iff.mp h
  obtain ⟨row, hp, hrowId⟩ := rowOf_eq_some hrow
  exact ⟨row, hp, hrowId.trans (Option.filter_eq_some_iff.mp hid).1.symm⟩

theorem newRow_exists {key : Key} (hp : t.row p = some row) (h : Widget.newRow t p key = some q) :
    ∃ row, t.row q = some row := by
  cases key with
  | up =>
    obtain ⟨hpos, heq⟩ := Option.ite_none_left_eq_some.mp h
    cases heq
    have hlt := (List.getElem?_eq_some_iff.mp hp).1
    exact ⟨_, List.getElem?_eq_getElem (Nat.lt_of_le_of_lt (Nat.sub_le _ _) hlt)⟩
  | down =>
    obtain ⟨hsome, heq⟩ := Option.ite_none_right_eq_some.mp h
    cases heq
    exact Option.isSome_iff_exists.mp hsome
  | «end» => exact mem_positions.mp (List.mem_of_find?_eq_some h)
  | home => exact mem_positions.mp (List.mem_of_head? h)

theorem tried_exists (h : step t w a = some v) (htried : tried t w a = some p) :
    ∃ row, t.row p = some row := by
  cases a with
  | initSelectedId =>
    obtain ⟨row, hrow, -⟩ := current_eq_some htried
    exact ⟨row, hrow⟩
  | click p' =>
    cases htried
    exact Option.isSome_iff_exists.mp (Option.ite_none_right_eq_some.mp h).1
  | keyDown key =>
    obtain ⟨p', hcurrent, hnew⟩ := Option.bind_eq_some_iff.mp htried
    obtain ⟨row, hrow, -⟩ := current_eq_some hcurrent
    exact newRow_exists hrow (Option.filter_eq_some_iff.mp hnew).1

/-- In each section one row has the class, or none. -/
structure OneSelected (t : Table) (w : Widget) : Prop where
  unique : ∀ p ∈ w.selected, ∀ q ∈ w.selected, p.1 = q.1 → p = q
  rows : ∀ p ∈ w.selected, ∃ row, t.row p = some row

theorem OneSelected.mem_unselect (hw : OneSelected t w) :
    q ∈ w.unselect t p ↔ q ∈ w.selected ∧ q.1 ≠ p.1 := by
  rw [Widget.unselect]
  cases hfind : t.positions.find? fun q => q.1 = p.1 ∧ q ∈ w.selected with
  | none =>
    refine ⟨fun hq => ⟨hq, fun hsame => ?_⟩, And.left⟩
    have hnone := List.find?_eq_none.mp hfind q (mem_positions.mpr (hw.rows q hq))
    exact hnone (decide_eq_true ⟨hsame, hq⟩)
  | some sel =>
    have hfound := List.find?_some hfind
    obtain ⟨hsection, hsel⟩ := decide_eq_true_eq.mp hfound
    rw [Option.elim_some, Finset.mem_erase]
    constructor
    · rintro ⟨hne, hq⟩
      exact ⟨hq, fun hsame => hne (hw.unique q hq sel hsel (hsame.trans hsection.symm))⟩
    · rintro ⟨hq, hother⟩
      exact ⟨fun heq => hother (heq ▸ hsection), hq⟩

theorem OneSelected.mem_selectRow (hw : OneSelected t w) (hp : t.row p = some row) :
    q ∈ (w.selectRow t p).selected ↔
      q = p ∧ row.nosel = false ∨ q ∈ w.selected ∧ q.1 ≠ p.1 := by
  obtain ⟨id, nosel⟩ := row
  rw [Widget.selectRow, hp]
  cases nosel with
  | false => simp [hw.mem_unselect]
  | true => simp [hw.mem_unselect]

theorem selectedId_selectRow (hp : t.row p = some row) :
    (w.selectRow t p).selectedId = if row.nosel then w.selectedId else row.id := by
  obtain ⟨id, nosel⟩ := row
  rw [Widget.selectRow, hp]
  cases nosel with
  | false => rfl
  | true => rfl

theorem sent_selectRow : (w.selectRow t p).sent = w.sent := by
  unfold Widget.selectRow
  split
  · rfl
  · rfl

/-- What a step does: nothing when it tries no row, and else it selects that row if it can, and
sends the id at least when that has changed. -/
inductive Effect (t : Table) (w : Widget) (a : Action) (v : Widget) : Prop where
  | stay (htried : tried t w a = none) (hv : v = w)
  | select {p : Position} {row : Row} (htried : tried t w a = some p) (hp : t.row p = some row)
      (hselected : v.selected = (w.selectRow t p).selected)
      (hid : v.selectedId = if row.nosel then w.selectedId else row.id)
      (hsent : v.sent = w.sent ∧ v.selectedId = w.selectedId ∨
        v.sent = w.sent ++ [v.selectedId])

theorem effect_of_step (hw : OneSelected t w) (h : step t w a = some v) : Effect t w a v := by
  cases htried : tried t w a with
  | none =>
    refine .stay htried ?_
    cases a with
    | initSelectedId =>
      cases h
      have hcurrent : w.current t = none := htried
      rw [Widget.initSelectedId, hcurrent, Option.elim_none]
    | click p => cases htried
    | keyDown key =>
      cases h
      have hkey : w.keyRow t key = none := htried
      rw [Widget.handleKeyDown, hkey]
  | some p =>
    obtain ⟨row, hp⟩ := tried_exists h htried
    have hid := selectedId_selectRow (w := w) hp
    cases a with
    | initSelectedId =>
      cases h
      have hcurrent : w.current t = some p := htried
      obtain ⟨row', hp', hrow⟩ := current_eq_some hcurrent
      cases hp.symm.trans hp'
      have hv : w.initSelectedId t = w.selectRow t p := by
        rw [Widget.initSelectedId, hcurrent, Option.elim_some]
      refine .select htried hp (congrArg _ hv) (hv ▸ hid) (.inl ⟨?_, ?_⟩)
      · rw [hv, sent_selectRow]
      · rw [hv, hid, hrow, ite_self]
    | click p' =>
      cases htried
      obtain ⟨-, heq⟩ := Option.ite_none_right_eq_some.mp h
      cases heq
      rw [Widget.handleRowClick]
      by_cases hsend : (t.reselect ∨ (w.selectRow t p).selectedId ≠ w.selectedId) ∧
          p ∈ (w.selectRow t p).selected
      · rw [if_pos hsend]
        exact .select rfl hp rfl hid (.inr (congrArg (· ++ _) sent_selectRow))
      · rw [if_neg hsend]
        refine .select rfl hp rfl hid (.inl ⟨sent_selectRow, ?_⟩)
        -- the id changes only when the row gets the class, and then it is sent
        by_contra hne
        refine hsend ⟨.inr hne, (hw.mem_selectRow hp).mpr (.inl ⟨rfl, ?_⟩)⟩
        rw [hid] at hne
        cases hnosel : row.nosel with
        | false => rfl
        | true => simp [hnosel] at hne
    | keyDown key =>
      cases h
      have hkey : w.keyRow t key = some p := htried
      rw [Widget.handleKeyDown, hkey]
      exact .select htried hp rfl hid (.inr (congrArg (· ++ _) sent_selectRow))

theorem OneSelected.step (hw : OneSelected t w) (h : step t w a = some v) : OneSelected t v := by
  cases effect_of_step hw h with
  | stay _ hv => exact hv ▸ hw
  | @select p row _ hp hselected _ _ =>
    have hmem : ∀ q, q ∈ v.selected ↔ q = p ∧ row.nosel = false ∨ q ∈ w.selected ∧ q.1 ≠ p.1 :=
      fun q => by rw [hselected, hw.mem_selectRow hp]
    refine ⟨fun q hq q' hq' hsame => ?_, fun q hq => ?_⟩
    · rcases (hmem q).mp hq with ⟨rfl, -⟩ | ⟨hq, hother⟩
      · rcases (hmem q').mp hq' with ⟨rfl, -⟩ | ⟨-, hother'⟩
        · rfl
        · exact absurd hsame.symm hother'
      · rcases (hmem q').mp hq' with ⟨rfl, -⟩ | ⟨hq', -⟩
        · exact absurd hsame hother
        · exact hw.unique q hq q' hq' hsame
    · rcases (hmem q).mp hq with ⟨rfl, -⟩ | ⟨hq, -⟩
      · exact ⟨row, hp⟩
      · exact hw.rows q hq

section Runs

variable {selectedId : String} {hist : List (Widget × Action)}

theorem oneSelected_run (run : Run (step t) (create selectedId) hist w) : OneSelected t w :=
  run.invariant (I := OneSelected t) (fun _ _ _ hw hstep => hw.step hstep)
    ⟨fun _ hp => absurd hp (Finset.notMem_empty _), fun _ hp => absurd hp (Finset.notMem_empty _)⟩

/-- A row has the class if and only if it can be selected and is the last one that has been tried
in its section, whatever has been tried in the others. -/
theorem selected_iff (run : Run (step t) (create selectedId) hist w) (hp : t.row p = some row) :
    p ∈ w.selected ↔ row.nosel = false ∧ Since (fun e => tried t e.1 e.2 = some p)
      (fun e => ∀ q, tried t e.1 e.2 = some q → q.1 ≠ p.1) hist := by
  induction run with
  | start => simp [create, not_since_nil]
  | @next hist w v a run taken ih =>
    have hw := oneSelected_run run
    rw [since_append]
    cases effect_of_step hw taken with
    | stay htried hv => simp [hv, htried, ih]
    | @select q row' htried hq hselected _ _ =>
      rw [hselected, hw.mem_selectRow hq, ih]
      simp only [htried, Option.some.injEq, forall_eq']
      by_cases heq : p = q
      · subst heq
        cases hp.symm.trans hq
        simp
      · simp only [heq, Ne.symm heq, false_and, false_or]
        rw [ne_comm]
        tauto

end Runs

/-- A table with a head and three rows; the second one has no item. -/
def fruitTable : Table where
  sections := [[⟨none, true⟩], [⟨some "apple", false⟩, ⟨none, true⟩, ⟨some "pear", false⟩]]
  reselect := false

def clicks : List Action := [.initSelectedId, .click (1, 2), .click (0, 0)]

theorem selected_iff_fruit : (1, 2) ∈ (final (step fruitTable) (create "apple") clicks rfl).selected
    ∧ Since (fun e => tried fruitTable e.1 e.2 = some (1, 2))
      (fun e => ∀ q, tried fruitTable e.1 e.2 = some q → q.1 ≠ 1)
      (history (step fruitTable) (create "apple") clicks) := by
  have hmem : (1, 2) ∈ (final (step fruitTable) (create "apple") clicks rfl).selected := by decide
  have hrun := run_history (Option.some_get (rfl :
    (exec (step fruitTable) (create "apple") clicks).isSome = true)).symm
  exact ⟨hmem, ((selected_iff hrun (p := (1, 2)) rfl).mp hmem).2⟩

/-- Each row of the section that can be selected has an id, and no other row of the table has
that. -/
structure Identified (t : Table) (i : ℕ) : Prop where
  named : ∀ n row, t.row (i, n) = some row → row.nosel = false → ∃ id, row.id = some id ∧ id ≠ ""
  unique : ∀ n q row row', t.row (i, n) = some row → row.nosel = false → t.row q = some row' →
    row'.id = row.id → q = (i, n)

/-- The row can be selected and is the one of the `selectedId`. -/
def Current (t : Table) (w : Widget) (p : Position) : Prop :=
  ∃ row, t.row p = some row ∧ row.nosel = false ∧ row.id = w.selectedId

/-- Position `c` comes after `a` on the way from `a` to `b`. -/
def OnWay (a b c : ℕ) : Prop := a < c ∧ c ≤ b ∨ b ≤ c ∧ c < a

section Arrows

variable {i m n : ℕ} {hist : List (Widget × Action)}

theorem Identified.current (ht : Identified t i) (h : Current t w (i, m)) :
    w.current t = some (i, m) := by
  obtain ⟨row, hp, hnosel, hid⟩ := h
  obtain ⟨id, hrow, hne⟩ := ht.named m row hp hnosel
  have hselected : w.selectedId = some id := hid.symm.trans hrow
  rw [Widget.current, hselected, Option.filter_some, if_pos (by simpa using hne), Option.bind_some]
  cases hfind : t.rowOf id with
  | none =>
    have hnone := List.find?_eq_none.mp hfind (i, m) (mem_positions.mpr ⟨row, hp⟩)
    rw [decide_eq_true_eq, hp] at hnone
    exact absurd hrow hnone
  | some q =>
    obtain ⟨row', hq, hid'⟩ := rowOf_eq_some hfind
    rw [ht.unique m q row row' hp hnosel hq (hid'.trans hrow.symm)]

theorem Identified.keyRow (ht : Identified t i) (h : Current t w (i, m)) {key : Key}
    (hnew : Widget.newRow t (i, m) key = some q) (hne : q ≠ (i, m)) : w.keyRow t key = some q := by
  obtain ⟨row, hp, hnosel, hid⟩ := h
  obtain ⟨row', hq⟩ := newRow_exists hp hnew
  rw [Widget.keyRow, ht.current ⟨row, hp, hnosel, hid⟩, Option.bind_some, hnew, Option.filter_some,
    if_pos]
  rw [decide_eq_true_eq, hq, Option.bind_some, ← hid]
  exact fun heq => hne (ht.unique m q row row' hp hnosel hq heq)

theorem current_keyDown {key : Key} (hkey : w.keyRow t key = some q) (hq : t.row q = some row) :
    if row.nosel then (w.handleKeyDown t key).selectedId = w.selectedId
    else Current t (w.handleKeyDown t key) q := by
  have hid : (w.handleKeyDown t key).selectedId = if row.nosel then w.selectedId else row.id := by
    rw [Widget.handleKeyDown, hkey]
    exact selectedId_selectRow hq
  cases hnosel : row.nosel with
  | false => exact ⟨row, hq, hnosel, by simp [hid, hnosel]⟩
  | true => simp [hid, hnosel]

theorem newRow_up (i m : ℕ) : Widget.newRow t (i, m + 1) .up = some (i, m) := by
  simp [Widget.newRow]

theorem newRow_down (hn : t.row (i, m + 1) = some row) :
    Widget.newRow t (i, m) .down = some (i, m + 1) := by
  simp [Widget.newRow, hn]

theorem newRow_arrow {key : Key} (hkey : key = .up ∨ key = .down)
    (h : Widget.newRow t (i, m) key = some q) : ∃ n, q = (i, n) ∧ (m = n + 1 ∨ n = m + 1) := by
  rcases hkey with rfl | rfl
  · obtain ⟨hpos, heq⟩ := Option.ite_none_left_eq_some.mp h
    cases heq
    exact ⟨m - 1, rfl, by dsimp only at hpos; omega⟩
  · obtain ⟨-, heq⟩ := Option.ite_none_right_eq_some.mp h
    cases heq
    exact ⟨m + 1, rfl, .inr rfl⟩

/-- The rows on the way from one to another can be selected, apart from the first. -/
def Open (t : Table) (i m n : ℕ) : Prop :=
  ∀ c row, t.row (i, c) = some row → OnWay m n c → row.nosel = false

def Reached (t : Table) (i m : ℕ) (w : Widget) : Prop :=
  ∃ n, Current t w (i, n) ∧ Open t i m n

theorem Reached.step (ht : Identified t i) (h : Reached t i m w) {key : Key}
    (hkey : key = .up ∨ key = .down) : Reached t i m (w.handleKeyDown t key) := by
  obtain ⟨n, hcurrent, hopen⟩ := h
  cases hnew : Widget.newRow t (i, n) key with
  | none =>
    have hnone : w.keyRow t key = none := by
      rw [Widget.keyRow, ht.current hcurrent, Option.bind_some, hnew, Option.filter_none]
    rw [Widget.handleKeyDown, hnone]
    exact ⟨n, hcurrent, hopen⟩
  | some q =>
    obtain ⟨n', rfl, hbeside⟩ := newRow_arrow hkey hnew
    have ⟨row₀, hrow₀, hnosel₀, hid⟩ := hcurrent
    obtain ⟨row, hrow⟩ := newRow_exists hrow₀ hnew
    have hne : (i, n') ≠ (i, n) := fun heq => by
      have hn := (Prod.mk.inj heq).2
      omega
    have hmoved := current_keyDown (ht.keyRow hcurrent hnew hne) hrow
    cases hnosel : row.nosel with
    | true =>
      rw [if_pos hnosel] at hmoved
      exact ⟨n, ⟨row₀, hrow₀, hnosel₀, hid.trans hmoved.symm⟩, hopen⟩
    | false =>
      rw [if_neg (by simp [hnosel])] at hmoved
      refine ⟨n', hmoved, fun c rowc hc hway => ?_⟩
      -- the way is shorter than it was, or has one more row at its end
      by_cases hlast : c = n'
      · subst hlast
        cases hrow.symm.trans hc
        exact hnosel
      · refine hopen c rowc hc ?_
        unfold OnWay at hway ⊢
        omega

theorem Identified.arrow (ht : Identified t i) (hw : Current t w (i, m)) {key : Key}
    (hnew : Widget.newRow t (i, m) key = some (i, n)) (hrow : t.row (i, n) = some row)
    (hne : n ≠ m) (hnosel : row.nosel = false) : Current t (w.handleKeyDown t key) (i, n) := by
  have hmoved := current_keyDown (ht.keyRow hw hnew fun h => hne (Prod.mk.inj h).2) hrow
  rwa [if_neg (by simp [hnosel])] at hmoved

theorem exists_arrows (ht : Identified t i) (hn : t.row (i, n) = some row) (d : ℕ)
    (hd : (n - m) + (m - n) = d) (hw : Current t w (i, m)) (hopen : Open t i m n) :
    ∃ hist v, Run (step t) w hist v ∧
      (∀ e ∈ hist, e.2 = .keyDown .up ∨ e.2 = .keyDown .down) ∧ Current t v (i, n) := by
  induction d generalizing m w with
  | zero =>
    obtain rfl : m = n := by omega
    exact ⟨[], w, .start, by simp, hw⟩
  | succ d ih =>
    have hlt := (List.getElem?_eq_some_iff.mp hn).1
    have ⟨row₀, hrow₀, _, _⟩ := hw
    have hlt₀ := (List.getElem?_eq_some_iff.mp hrow₀).1
    dsimp only at hlt hlt₀
    -- the row beside this one, on the side of the row that is to be reached
    obtain ⟨key, n', hkey, hnew, hnear, hway, hshorter, hlt'⟩ : ∃ key n',
        (key = .up ∨ key = .down) ∧
        (∀ row', t.row (i, n') = some row' → Widget.newRow t (i, m) key = some (i, n')) ∧
        (n - n') + (n' - n) = d ∧ OnWay m n n' ∧
        (∀ c, OnWay n' n c → OnWay m n c) ∧ n' < (t.sections.getD i []).length := by
      unfold OnWay
      rcases Nat.lt_or_ge m n with h | h
      · exact ⟨.down, m + 1, .inr rfl, fun _ => newRow_down, by omega, by omega, by omega,
          by omega⟩
      · obtain ⟨m, rfl⟩ : ∃ m', m = m' + 1 := ⟨m - 1, by omega⟩
        exact ⟨.up, m, .inl rfl, fun _ _ => newRow_up i m, by omega, by omega, by omega, by omega⟩
    obtain ⟨row', hrow'⟩ : ∃ row', t.row (i, n') = some row' :=
      ⟨_, List.getElem?_eq_getElem hlt'⟩
    have hne : n' ≠ m := by unfold OnWay at hway; omega
    have hmoved := ht.arrow hw (hnew row' hrow') hrow' hne (hopen n' row' hrow' hway)
    obtain ⟨hist, v, run, hkeys, hv⟩ := ih hnear hmoved fun c rowc hc h =>
      hopen c rowc hc (hshorter c h)
    refine ⟨_, v, (Run.one (a := .keyDown key) rfl).trans run, fun e he => ?_, hv⟩
    rcases List.mem_cons.mp he with rfl | he
    · rcases hkey with rfl | rfl
      · exact .inl rfl
      · exact .inr rfl
    · exact hkeys e he

/-- With the arrow keys one comes from a row to another of its section if and only if every row on
the way can be selected: a row of the class `nosel` is never passed. -/
theorem arrows_iff (ht : Identified t i) (hw : Current t w (i, m)) (hn : t.row (i, n) = some row) :
    (∃ hist v, Run (step t) w hist v ∧
      (∀ e ∈ hist, e.2 = .keyDown .up ∨ e.2 = .keyDown .down) ∧ Current t v (i, n)) ↔
        Open t i m n := by
  constructor
  · rintro ⟨hist, v, run, hkeys, row', hn', hnosel, hid⟩
    cases hn.symm.trans hn'
    have hreached : Reached t i m v := by
      refine run.invariant_of (C := fun _ a => a = .keyDown .up ∨ a = .keyDown .down)
        (I := Reached t i m) (fun w a v hw ha hstep => ?_) hkeys
        ⟨m, hw, fun c _ _ hway => ?_⟩
      · rcases ha with rfl | rfl
        · cases hstep
          exact hw.step ht (.inl rfl)
        · cases hstep
          exact hw.step ht (.inr rfl)
      · unfold OnWay at hway
        omega
    obtain ⟨n', ⟨row'', hn'', -, hid'⟩, hopen⟩ := hreached
    have hsame := ht.unique n (i, n') row row'' hn hnosel hn'' (hid'.trans hid.symm)
    rwa [(Prod.mk.inj hsame).2] at hopen
  · exact exists_arrows ht hn _ rfl hw

end Arrows

theorem fruitTable_identified : Identified fruitTable 1 := by
  have hrows : ∀ p ∈ fruitTable.positions, ∀ row ∈ fruitTable.row p, row.nosel = false →
      ∃ id ∈ row.id, id ≠ "" := by decide
  have hunique : ∀ p ∈ fruitTable.positions, ∀ q ∈ fruitTable.positions, ∀ row ∈ fruitTable.row p,
      ∀ row' ∈ fruitTable.row q, row.nosel = false → row'.id = row.id → q = p := by decide
  refine ⟨fun n row hn hnosel => ?_, fun n q row row' hn hnosel hq hid => ?_⟩
  · obtain ⟨id, hid, hne⟩ := hrows (1, n) (mem_positions.mpr ⟨row, hn⟩) row hn hnosel
    exact ⟨id, hid, hne⟩
  · exact hunique (1, n) (mem_positions.mpr ⟨row, hn⟩) q (mem_positions.mpr ⟨row', hq⟩) row hn row'
      hq hnosel hid

/-- From the apple the arrow keys do not come to the pear. -/
theorem arrows_iff_fruit : ¬∃ hist v, Run (step fruitTable) (create "apple") hist v ∧
    (∀ e ∈ hist, e.2 = .keyDown .up ∨ e.2 = .keyDown .down) ∧ Current fruitTable v (1, 2) := by
  intro h
  have hopen := (arrows_iff fruitTable_identified (m := 0) (n := 2)
    ⟨⟨some "apple", false⟩, rfl, rfl, rfl⟩ rfl).mp h
  have hmore := hopen 1 ⟨none, true⟩ rfl (.inl ⟨Nat.one_pos, Nat.le_succ 1⟩)
  cases hmore

end GoraddServe.SelectTables
