import GoraddServe.JsValues
import GoraddServe.LabelledRuns
import Mathlib.Data.List.Range

/-!
# The files of a response

`_processAjax` requests the style sheets and the scripts of a response, and calls
`_processAjax2` when `loadCount` comes to zero. Each file calls `fWait` once, from its `onload`
or its `onerror`; that may be before the next file is requested.
-/
namespace GoraddServe.ResponseFiles
open LabelledRuns JsValues

variable {N : Type*}

inductive Kind where
  | styleSheet
  | script
  deriving DecidableEq

/-- A file that `loadStyleSheetFile` or `loadJavaScriptFile` is called for. -/
structure File (N : Type*) where
  kind : Kind
  name : String
  attributes : Value N

/-- The attributes of the files of a response, by the names of the files. Either part may be
missing. -/
structure Json (N : Type*) where
  ss : Option (List (String × List (String × Value N)))
  js : Option (List (String × List (String × Value N)))

/-- `json.ss` or `json.js` as it is parsed. -/
def parsed : Option (List (String × List (String × Value N))) → Value N
  | none => .undefined
  | some files => .obj (files.map fun f => (f.1, .obj f.2))

section Files

variable [Number N]

/-- The files of one kind, in the order in which they are requested. -/
def filesOf (kind : Kind) (value : Value N) : Option (List (File N)) :=
  if value.truthy then
    value.each.map fun calls => calls.map fun e => ⟨kind, e.1, e.2⟩
  else some []

def files (json : Json N) : Option (List (File N)) := do
  let ss ← filesOf .styleSheet (parsed json.ss)
  let js ← filesOf .script (parsed json.js)
  return ss ++ js

theorem filesOf_parsed (kind : Kind) (part : Option (List (String × List (String × Value N)))) :
    filesOf kind (parsed part) =
      some ((part.getD []).map fun f => ⟨kind, f.1, .obj f.2⟩) := by
  cases part with
  | none => simp [filesOf, parsed, Value.truthy]
  | some part =>
    have hlike : Value.isArrayLike (part.map fun f => (f.1, Value.obj f.2)) = false := by
      unfold Value.isArrayLike
      split
      · rename_i n hlength
        obtain ⟨f, -, hf⟩ := List.mem_map.mp (Value.lookup_mem hlength)
        cases congrArg Prod.snd hf
      · rfl
    simp [filesOf, parsed, Value.truthy, Value.each_obj hlike]

theorem files_eq (json : Json N) : files json = some
    (((json.ss.getD []).map fun f => ⟨.styleSheet, f.1, .obj f.2⟩) ++
      (json.js.getD []).map fun f => ⟨.script, f.1, .obj f.2⟩) := by
  simp [files, filesOf_parsed]

end Files

/-- The call of `_processAjax` and the closure `fWait` that it shares with the files: the files
that were requested, by their numbers, those of them whose callback has not fired and those
whose callback has, and the number of calls of `_processAjax2`. -/
structure State where
  requested : ℕ
  outstanding : List ℕ
  loadCount : ℤ
  returned : Bool
  fired : List ℕ
  applied : ℕ
  deriving DecidableEq

def init : State := ⟨0, [], 1, false, [], 0⟩

namespace State

variable (s : State)

def fWait : State :=
  let s := { s with loadCount := s.loadCount - 1 }
  if s.loadCount = 0 then { s with applied := s.applied + 1 } else s

/-- `loadCount++`, and the file is requested. -/
def request : State :=
  { s with loadCount := s.loadCount + 1, outstanding := s.outstanding ++ [s.requested],
           requested := s.requested + 1 }

/-- `onload` or `onerror` of a file -/
def callback (i : ℕ) : State :=
  { s with outstanding := s.outstanding.erase i, fired := s.fired ++ [i] }.fWait

/-- The last `fWait()` of `_processAjax`. -/
def finish : State := { s with returned := true }.fWait

end State

inductive Action where
  | request
  | callback (i : ℕ)
  | finish
  deriving DecidableEq

def step (l : List (File N)) (s : State) : Action → Option State
  | .request => if s.returned = false ∧ s.requested < l.length then some s.request else none
  | .callback i => if i ∈ s.outstanding then some (s.callback i) else none
  | .finish => if s.returned = false ∧ s.requested = l.length then some s.finish else none

section Steps

variable {l : List (File N)} {s t : State} {a : Action} {i : ℕ}

/-- The count is one for each file that is outstanding, and one until `_processAjax` returns. -/
structure Counted (l : List (File N)) (s : State) : Prop where
  requested_le : s.requested ≤ l.length
  requested_all : s.returned = true → s.requested = l.length
  numbers : (s.fired ++ s.outstanding).Perm (List.range s.requested)
  loadCount : s.loadCount = s.outstanding.length + if s.returned then 0 else 1
  applied : s.applied = if s.returned = true ∧ s.outstanding = [] then 1 else 0

theorem Counted.init : Counted l init := by
  refine ⟨Nat.zero_le _, ?_, ?_, ?_, ?_⟩ <;> simp [ResponseFiles.init]

theorem fWait_eq : s.fWait = { s with
    loadCount := s.loadCount - 1, applied := s.applied + if s.loadCount = 1 then 1 else 0 } := by
  by_cases h : s.loadCount = 1
  · simp [State.fWait, h]
  · have hne : s.loadCount - 1 ≠ 0 := by omega
    simp [State.fWait, h, hne]

theorem Counted.request (hs : Counted l s) (hreturned : s.returned = false)
    (hmore : s.requested < l.length) : Counted l s.request := by
  refine ⟨hmore, fun h => ?_, ?_, ?_, ?_⟩
  · simp [State.request, hreturned] at h
  · rw [State.request, ← List.append_assoc, List.range_succ]
    exact hs.numbers.append_right _
  · have hcount := hs.loadCount
    simp only [State.request, hreturned, Bool.false_eq_true, if_false, List.length_append,
      List.length_singleton] at hcount ⊢
    omega
  · have happlied := hs.applied
    simpa [State.request, hreturned] using happlied

theorem Counted.callback (hs : Counted l s) (hi : i ∈ s.outstanding) :
    Counted l (s.callback i) := by
  have hlength := List.length_erase_of_mem hi
  have hpos := List.length_pos_of_mem hi
  have hcount := hs.loadCount
  rw [State.callback, fWait_eq]
  refine ⟨hs.requested_le, hs.requested_all, ?_, ?_, ?_⟩
  · have hperm := (List.perm_cons_erase hi).symm
    simpa using (List.Perm.append_left s.fired hperm).trans hs.numbers
  · simp only
    omega
  · have happlied := hs.applied
    rw [if_neg fun h => List.ne_nil_of_mem hi h.2] at happlied
    simp only [happlied]
    cases hreturned : s.returned with
    | false =>
      rw [hreturned] at hcount
      simp only [Bool.false_eq_true, if_false] at hcount
      rw [if_neg (by omega)]
      simp
    | true =>
      rw [hreturned] at hcount
      simp only [if_true] at hcount
      simp only [true_and, Nat.zero_add, ← List.length_eq_zero_iff]
      exact if_congr (by omega) rfl rfl

theorem Counted.finish (hs : Counted l s) (hreturned : s.returned = false)
    (hall : s.requested = l.length) : Counted l s.finish := by
  have hcount := hs.loadCount
  have happlied := hs.applied
  simp only [hreturned, Bool.false_eq_true, false_and, if_false] at hcount happlied
  rw [State.finish, fWait_eq]
  refine ⟨hs.requested_le, fun _ => hall, hs.numbers, ?_, ?_⟩
  · simp only [if_true]
    omega
  · simp only [happlied, true_and, Nat.zero_add, ← List.length_eq_zero_iff]
    exact if_congr (by omega) rfl rfl

theorem Counted.step (hs : Counted l s) (h : step l s a = some t) : Counted l t := by
  cases a with
  | request =>
    simp only [ResponseFiles.step, Option.ite_none_right_eq_some, Option.some_inj] at h
    obtain ⟨⟨hreturned, hmore⟩, rfl⟩ := h
    exact hs.request hreturned hmore
  | callback i =>
    simp only [ResponseFiles.step, Option.ite_none_right_eq_some, Option.some_inj] at h
    obtain ⟨hi, rfl⟩ := h
    exact hs.callback hi
  | finish =>
    simp only [ResponseFiles.step, Option.ite_none_right_eq_some, Option.some_inj] at h
    obtain ⟨⟨hreturned, hall⟩, rfl⟩ := h
    exact hs.finish hreturned hall

theorem run_counted {hist : List (State × Action)} (run : Run (step l) init hist t) :
    Counted l t :=
  run.invariant (fun _ _ _ hs h => hs.step h) .init

end Steps

/-- Whatever the order of the callbacks, a response is applied once, when `_processAjax` has
returned and the callbacks of all its files have fired, and not before. -/
theorem applied_once [Number N] (json : Json N) : ∃ l, files json = some l ∧
    l.length = (json.ss.getD []).length + (json.js.getD []).length ∧
    ∀ hist t, Run (step l) init hist t →
      t.fired.Nodup ∧ t.applied =
        if t.returned = true ∧ ∀ i < l.length, i ∈ t.fired then 1 else 0 := by
  refine ⟨_, files_eq json, by simp, fun hist t run => ?_⟩
  have ht := run_counted run
  have hnodup := ht.numbers.nodup_iff.mpr List.nodup_range
  refine ⟨(List.nodup_append.mp hnodup).1, ht.applied.trans (if_congr ?_ rfl rfl)⟩
  refine and_congr_right fun hreturned => ?_
  rw [← ht.requested_all hreturned]
  constructor
  · intro hnil i hi
    have hmem := ht.numbers.mem_iff.mpr (List.mem_range.mpr hi)
    rwa [hnil, List.append_nil] at hmem
  · intro hall
    refine List.eq_nil_iff_forall_not_mem.mpr fun i hi => ?_
    have hlt := List.mem_range.mp (ht.numbers.mem_iff.mp (List.mem_append_right _ hi))
    exact (List.nodup_append.mp hnodup).2.2 i (hall i hlt) i hi rfl

/-- A response with a style sheet that has loaded before the script is requested. -/
def themed : Json ℤ := ⟨some [("theme.css", [])], some [("chart.js", [])]⟩

def themedLoads : List Action := [.request, .callback 0, .request, .finish, .callback 1]

theorem themedLoads_run {l : List (File ℤ)} (h : l.length = 2) :
    ∃ t, exec (step l) init themedLoads = some t ∧ t.returned = true ∧ t.fired = [0, 1] := by
  simp [exec, themedLoads, step, init, State.request, State.callback, State.finish, fWait_eq, h]

theorem applied_once_themed : ∃ l hist t, files themed = some l ∧ Run (step l) init hist t ∧
    t.returned = true ∧ t.applied = 1 := by
  obtain ⟨l, hl, hlength, h⟩ := applied_once themed
  obtain ⟨t, hexec, hreturned, hfired⟩ := themedLoads_run hlength
  obtain ⟨hist, run, -⟩ := run_of_exec hexec
  refine ⟨l, hist, t, hl, run, hreturned, (h hist t run).2.trans (if_pos ⟨hreturned, ?_⟩)⟩
  rw [hlength, hfired]
  decide

end GoraddServe.ResponseFiles
