import Mathlib.Data.List.Basic
import Mathlib.Data.List.Induction
import Mathlib.Data.Nat.Basic

/-!
# Start tags and the end tags that close them

A stack of open elements is cut back at every end tag to the innermost element of its name,
so an end tag closes one element and ends all those inside it. `Closes` says without a
stack which start tag an end tag closes. The spans that the stack yields are the pairs of
this relation, and no two of them overlap.
-/
namespace GoraddServe.TagMatching

variable {ν : Type*}

inductive Kind (ν : Type*) where
  | opens (name : ν)
  | closes (name : ν)
  /-- an element that takes no end tag -/
  | whole
  | other

/-- The tag at `j` closes the element opened at `i`: it has the same name, no tag between
them closes this element or one around it, and each later element of the name has been
closed, or one around it has. -/
def Closes (kinds : List (Kind ν)) (j i : ℕ) : Prop :=
  ∃ name, kinds[j]? = some (.closes name) ∧ kinds[i]? = some (.opens name) ∧ i < j ∧
    (∀ k, i < k → k < j → ∀ i' ≤ i, ¬Closes kinds k i') ∧
    ∀ i', i < i' → i' < j → kinds[i']? = some (.opens name) →
      ¬∀ k, i' < k → k < j → ∀ i'' ≤ i', ¬Closes kinds k i''
termination_by j

/-- Before the tag at `n` the element opened at `i` has not been closed, nor has one around it. -/
structure Open (kinds : List (Kind ν)) (name : ν) (i n : ℕ) : Prop where
  opens : kinds[i]? = some (.opens name)
  lt : i < n
  unclosed : ∀ k, i < k → k < n → ∀ i' ≤ i, ¬Closes kinds k i'

variable {kinds : List (Kind ν)} {name : ν} {i j n : ℕ}

theorem closes_iff : Closes kinds j i ↔
    ∃ name, kinds[j]? = some (.closes name) ∧ Open kinds name i j ∧
      ∀ i', i < i' → ¬Open kinds name i' j := by
  rw [Closes]
  refine exists_congr fun name => and_congr_right fun _ => ?_
  constructor
  · rintro ⟨hi, hlt, hopen, hlast⟩
    exact ⟨⟨hi, hlt, hopen⟩, fun i' hi' ho => hlast i' hi' ho.lt ho.opens ho.unclosed⟩
  · rintro ⟨ho, hlast⟩
    refine ⟨ho.opens, ho.lt, ho.unclosed, fun i' hi' hlt hi'' hopen => ?_⟩
    exact hlast i' hi' ⟨hi'', hlt, hopen⟩

theorem Closes.unique_start {i' : ℕ} (h : Closes kinds j i) (h' : Closes kinds j i') : i = i' := by
  obtain ⟨name, hj, ho, hlast⟩ := closes_iff.mp h
  obtain ⟨name', hj', ho', hlast'⟩ := closes_iff.mp h'
  obtain rfl : name = name' := by simpa [hj] using hj'
  rcases lt_trichotomy i i' with hlt | heq | hgt
  · exact absurd ho' (hlast i' hlt)
  · exact heq
  · exact absurd ho (hlast' i hgt)

theorem open_succ : Open kinds name i (n + 1) ↔
    (i = n ∧ kinds[n]? = some (.opens name)) ∨
      (Open kinds name i n ∧ ∀ i' ≤ i, ¬Closes kinds n i') := by
  constructor
  · intro h
    rcases Nat.lt_succ_iff_lt_or_eq.mp h.lt with hlt | rfl
    · exact .inr ⟨⟨h.opens, hlt, fun k hk hkn => h.unclosed k hk (Nat.lt_succ_of_lt hkn)⟩,
        h.unclosed n hlt (Nat.lt_succ_self n)⟩
    · exact .inl ⟨rfl, h.opens⟩
  · rintro (⟨rfl, hi⟩ | ⟨h, hn⟩)
    · exact ⟨hi, Nat.lt_succ_self i, fun k hk hkn => absurd hk (by omega)⟩
    · refine ⟨h.opens, Nat.lt_succ_of_lt h.lt, fun k hk hkn => ?_⟩
      rcases Nat.lt_succ_iff_lt_or_eq.mp hkn with hlt | rfl
      · exact h.unclosed k hk hlt
      · exact hn

/-- The pairs of a start tag and the end tag that closes it, and the elements without one. -/
def Spanned (kinds : List (Kind ν)) (i j : ℕ) : Prop :=
  (kinds[j]? = some .whole ∧ i = j) ∨ Closes kinds j i

theorem Spanned.le (h : Spanned kinds i j) : i ≤ j := by
  rcases h with ⟨-, rfl⟩ | hc
  · exact le_rfl
  · obtain ⟨_, -, ho, -⟩ := closes_iff.mp hc
    exact Nat.le_of_lt ho.lt

private theorem spanned_succ : (j < n + 1 ∧ Spanned kinds i j) ↔
    (j < n ∧ Spanned kinds i j) ∨ (j = n ∧ Spanned kinds i n) := by
  rw [Nat.lt_succ_iff_lt_or_eq, or_and_right]
  refine or_congr_right (and_congr_right fun h => ?_)
  rw [h]

private theorem not_closes {k : Kind ν} (hk : kinds[n]? = some k) (h : ∀ name, k ≠ .closes name) :
    ¬Closes kinds n i := by
  intro hc
  obtain ⟨name, hn, -⟩ := closes_iff.mp hc
  exact h name (Option.some.inj (hk.symm.trans hn))

private theorem open_succ_of_not_closes (h : ∀ i, ¬Closes kinds n i) :
    Open kinds name i (n + 1) ↔
      (i = n ∧ kinds[n]? = some (.opens name)) ∨ Open kinds name i n := by
  simp [open_succ, h]

/-- `stack` is innermost first. -/
structure Scan (ν : Type*) where
  next : ℕ
  stack : List (ℕ × ν)
  spans : List (ℕ × ℕ)

/-- Positions on the stack go down, and spans do not overlap each other or an open element. -/
structure Nested (s : Scan ν) : Prop where
  below : ∀ e ∈ s.stack, e.1 < s.next
  down : s.stack.Pairwise fun e f => f.1 < e.1
  past : ∀ a ∈ s.spans, a.1 ≤ a.2 ∧ a.2 < s.next
  clear : ∀ a ∈ s.spans, ∀ e ∈ s.stack, e.1 < a.1 ∨ a.2 < e.1
  apart : s.spans.Pairwise fun a b => a.2 < b.2 ∧ (a.2 < b.1 ∨ b.1 < a.1)

variable {s : Scan ν}

theorem Nested.skip (h : Nested s) : Nested { s with next := s.next + 1 } where
  below e he := Nat.lt_succ_of_lt (h.below e he)
  down := h.down
  past a ha := ⟨(h.past a ha).1, Nat.lt_succ_of_lt (h.past a ha).2⟩
  clear := h.clear
  apart := h.apart

/-- A new span ends last, and starts at the position that was next or at one of the stack. -/
theorem Nested.emit (h : Nested s) {p : ℕ} {rest : List (ℕ × ν)} (hrest : rest <:+ s.stack)
    (hp : p ≤ s.next) (hclear : ∀ a ∈ s.spans, p < a.1 ∨ a.2 < p) (hbelow : ∀ e ∈ rest, e.1 < p) :
    Nested ⟨s.next + 1, rest, s.spans ++ [(p, s.next)]⟩ where
  below e he := Nat.lt_succ_of_lt (h.below e (hrest.subset he))
  down := h.down.sublist hrest.sublist
  past a ha := by
    rcases List.mem_append.mp ha with ha | ha
    · exact ⟨(h.past a ha).1, Nat.lt_succ_of_lt (h.past a ha).2⟩
    · obtain rfl := List.mem_singleton.mp ha
      exact ⟨hp, Nat.lt_succ_self _⟩
  clear a ha e he := by
    rcases List.mem_append.mp ha with ha | ha
    · exact h.clear a ha e (hrest.subset he)
    · obtain rfl := List.mem_singleton.mp ha
      exact .inl (hbelow e he)
  apart := by
    refine List.pairwise_append.mpr ⟨h.apart, List.pairwise_singleton .., fun a ha b hb => ?_⟩
    obtain rfl := List.mem_singleton.mp hb
    exact ⟨(h.past a ha).2, (hclear a ha).symm⟩

/-- After the first `n` tags the stack holds the open elements, and the spans are those that
end there. -/
structure Matched (kinds : List (Kind ν)) (n : ℕ) (s : Scan ν) : Prop where
  next : s.next = n
  stack : ∀ i name, (i, name) ∈ s.stack ↔ Open kinds name i n
  spans : ∀ i j, (i, j) ∈ s.spans ↔ j < n ∧ Spanned kinds i j

theorem Matched.of_not_closes {s' : Scan ν} (hm : Matched kinds n s)
    (hnot : ∀ i, ¬Closes kinds n i) (hnext : s'.next = s.next + 1)
    (hstack : ∀ i name, (i, name) ∈ s'.stack ↔
      (i = n ∧ kinds[n]? = some (.opens name)) ∨ (i, name) ∈ s.stack)
    (hspans : ∀ i j, (i, j) ∈ s'.spans ↔
      (i, j) ∈ s.spans ∨ (j = n ∧ kinds[n]? = some .whole ∧ i = n)) :
    Matched kinds (n + 1) s' where
  next := by rw [hnext, hm.next]
  stack i name := by rw [hstack, open_succ_of_not_closes hnot, hm.stack]
  spans i j := by
    rw [hspans, spanned_succ, hm.spans]
    simp [Spanned, hnot]

section Cut

variable {inner rest : List (ℕ × ν)} {p : ℕ}

/-- An end tag closes the innermost element of its name on the stack, and nothing else. -/
theorem Matched.closes_top (hm : Matched kinds n s) (hs : Nested s)
    (hk : kinds[n]? = some (.closes name)) (hstack : s.stack = inner ++ (p, name) :: rest)
    (hinner : ∀ e ∈ inner, e.2 ≠ name) : Closes kinds n i ↔ i = p := by
  have hdown := hs.down
  rw [hstack, List.pairwise_append, List.pairwise_cons] at hdown
  obtain ⟨-, ⟨hrest, -⟩, -⟩ := hdown
  have hlast : ∀ i, Open kinds name i n → i ≤ p := by
    intro i ho
    have hi := (hm.stack i name).mpr ho
    rw [hstack, List.mem_append, List.mem_cons, Prod.mk.injEq] at hi
    rcases hi with hi | ⟨rfl, -⟩ | hi
    · exact absurd rfl (hinner _ hi)
    · exact le_rfl
    · exact Nat.le_of_lt (hrest _ hi)
  have hp : Closes kinds n p := by
    have ho : Open kinds name p n := (hm.stack p name).mp (by simp [hstack])
    exact closes_iff.mpr ⟨name, hk, ho, fun i hi ho' => absurd (hlast i ho') (by omega)⟩
  exact ⟨fun hc => hc.unique_start hp, fun hi => hi ▸ hp⟩

theorem Matched.cut (hm : Matched kinds n s) (hs : Nested s)
    (hk : kinds[n]? = some (.closes name)) (hstack : s.stack = inner ++ (p, name) :: rest)
    (hinner : ∀ e ∈ inner, e.2 ≠ name) :
    Matched kinds (n + 1) ⟨s.next + 1, rest, s.spans ++ [(p, s.next)]⟩ := by
  have hcloses : ∀ i, Closes kinds n i ↔ i = p := fun i => hm.closes_top hs hk hstack hinner
  have hdown := hs.down
  rw [hstack, List.pairwise_append, List.pairwise_cons] at hdown
  obtain ⟨-, ⟨hrest, -⟩, habove⟩ := hdown
  refine ⟨congrArg (· + 1) hm.next, fun i name' => ?_, fun i j => ?_⟩
  · have houter : (∀ i' ≤ i, ¬Closes kinds n i') ↔ i < p := by
      simp only [hcloses]
      exact ⟨fun h => Nat.lt_of_not_le fun hle => h p hle rfl, fun h i' hi' => by omega⟩
    rw [open_succ, ← hm.stack, houter, hstack]
    simp only [hk, Option.some.injEq, reduceCtorEq, and_false, false_or, List.mem_append,
      List.mem_cons, Prod.mk.injEq]
    constructor
    · intro hi
      exact ⟨.inr (.inr hi), hrest _ hi⟩
    · rintro ⟨hi | ⟨rfl, -⟩ | hi, hlt⟩
      · exact absurd (habove _ hi (p, name) List.mem_cons_self) (by simp; omega)
      · exact absurd hlt (lt_irrefl _)
      · exact hi
  · rw [spanned_succ, ← hm.spans, List.mem_append]
    simp [Spanned, hk, hcloses, hm.next, and_comm]

end Cut

variable [DecidableEq ν]

def Scan.read (s : Scan ν) : Kind ν → Scan ν
  | .opens name => { s with next := s.next + 1, stack := (s.next, name) :: s.stack }
  | .closes name =>
    match s.stack.dropWhile (·.2 != name) with
    | [] => { s with next := s.next + 1 }
    | e :: rest => ⟨s.next + 1, rest, s.spans ++ [(e.1, s.next)]⟩
  | .whole => { s with next := s.next + 1, spans := s.spans ++ [(s.next, s.next)] }
  | .other => { s with next := s.next + 1 }

def scan (kinds : List (Kind ν)) : Scan ν := kinds.foldl Scan.read ⟨0, [], []⟩

theorem scan_concat (kinds : List (Kind ν)) (k : Kind ν) :
    scan (kinds ++ [k]) = (scan kinds).read k := by
  rw [scan, List.foldl_append]
  rfl

theorem Nested.push (h : Nested s) (name : ν) : Nested (s.read (.opens name)) where
  below e he := by
    rcases List.mem_cons.mp he with rfl | he
    · exact Nat.lt_succ_self _
    · exact Nat.lt_succ_of_lt (h.below e he)
  down := List.pairwise_cons.mpr ⟨h.below, h.down⟩
  past a ha := ⟨(h.past a ha).1, Nat.lt_succ_of_lt (h.past a ha).2⟩
  clear a ha e he := by
    rcases List.mem_cons.mp he with rfl | he
    · exact .inr (h.past a ha).2
    · exact h.clear a ha e he
  apart := h.apart

private theorem dropWhile_cases (stack : List (ℕ × ν)) (name : ν) :
    ((∀ e ∈ stack, e.2 ≠ name) ∧ stack.dropWhile (·.2 != name) = []) ∨
      ∃ inner i rest, stack = inner ++ (i, name) :: rest ∧ (∀ e ∈ inner, e.2 ≠ name) ∧
        stack.dropWhile (·.2 != name) = (i, name) :: rest := by
  induction stack with
  | nil => exact .inl ⟨by simp, rfl⟩
  | cons e stack ih =>
    obtain ⟨i, name'⟩ := e
    by_cases he : name' = name
    · subst he
      exact .inr ⟨[], i, stack, rfl, by simp, by simp⟩
    · have hdrop : ((i, name') :: stack).dropWhile (·.2 != name) =
          stack.dropWhile (·.2 != name) := by simp [he]
      rw [hdrop]
      rcases ih with ⟨hall, hnil⟩ | ⟨inner, i', rest, rfl, hinner, hcons⟩
      · exact .inl ⟨List.forall_mem_cons.mpr ⟨he, hall⟩, hnil⟩
      · refine .inr ⟨(i, name') :: inner, i', rest, rfl, ?_, hcons⟩
        exact List.forall_mem_cons.mpr ⟨he, hinner⟩

theorem read_closes (s : Scan ν) (name : ν) :
    ((∀ e ∈ s.stack, e.2 ≠ name) ∧ s.read (.closes name) = { s with next := s.next + 1 }) ∨
      ∃ inner i rest, s.stack = inner ++ (i, name) :: rest ∧ (∀ e ∈ inner, e.2 ≠ name) ∧
        s.read (.closes name) = ⟨s.next + 1, rest, s.spans ++ [(i, s.next)]⟩ := by
  rcases dropWhile_cases s.stack name with ⟨hall, hdrop⟩ | ⟨inner, i, rest, hstack, hinner, hdrop⟩
  · exact .inl ⟨hall, by rw [Scan.read, hdrop]⟩
  · exact .inr ⟨inner, i, rest, hstack, hinner, by rw [Scan.read, hdrop]⟩

theorem Nested.read (h : Nested s) (k : Kind ν) : Nested (s.read k) := by
  cases k with
  | opens name => exact h.push name
  | whole =>
    exact h.emit (List.suffix_refl _) le_rfl (fun a ha => .inr (h.past a ha).2) h.below
  | other => exact h.skip
  | closes name =>
    rcases read_closes s name with ⟨-, hread⟩ | ⟨inner, i, rest, hstack, -, hread⟩
    · rw [hread]
      exact h.skip
    · have hsuffix : (i, name) :: rest <:+ s.stack := ⟨inner, hstack.symm⟩
      have hi : (i, name) ∈ s.stack := hsuffix.subset List.mem_cons_self
      have hdown := List.pairwise_cons.mp (h.down.sublist hsuffix.sublist)
      rw [hread]
      exact h.emit ((List.suffix_cons _ rest).trans hsuffix) (Nat.le_of_lt (h.below _ hi))
        (fun a ha => h.clear a ha _ hi) hdown.1

theorem nested_scan (kinds : List (Kind ν)) : Nested (scan kinds) := by
  induction kinds using List.reverseRecOn with
  | nil => exact ⟨by simp [scan], by simp [scan], by simp [scan], by simp [scan], by simp [scan]⟩
  | append_singleton kinds k ih =>
    rw [scan_concat]
    exact ih.read k

theorem Matched.read (hm : Matched kinds n s) (hs : Nested s) {k : Kind ν}
    (hk : kinds[n]? = some k) : Matched kinds (n + 1) (s.read k) := by
  cases k with
  | opens name =>
    refine hm.of_not_closes (fun i => not_closes hk (by simp)) rfl ?_ ?_
    · intro i name'
      simp [Scan.read, hk, hm.next, eq_comm]
    · intro i j
      simp [Scan.read, hk]
  | whole =>
    refine hm.of_not_closes (fun i => not_closes hk (by simp)) rfl ?_ ?_
    · intro i name'
      simp [Scan.read, hk]
    · intro i j
      simp [Scan.read, hk, hm.next, and_comm]
  | other =>
    refine hm.of_not_closes (fun i => not_closes hk (by simp)) rfl ?_ ?_
    · intro i name'
      simp [Scan.read, hk]
    · intro i j
      simp [Scan.read, hk]
  | closes name =>
    rcases read_closes s name with ⟨hall, hread⟩ | ⟨inner, p, rest, hstack, hinner, hread⟩
    · rw [hread]
      refine hm.of_not_closes (fun i hc => ?_) rfl ?_ ?_
      · obtain ⟨name', hn, ho, -⟩ := closes_iff.mp hc
        obtain rfl : name = name' := by simpa [hk] using hn
        exact hall _ ((hm.stack i name).mpr ho) rfl
      · intro i name'
        simp [hk]
      · intro i j
        simp [hk]
    · rw [hread]
      exact hm.cut hs hk hstack hinner

theorem matched_scan (kinds : List (Kind ν)) (n : ℕ) (hn : n ≤ kinds.length) :
    Matched kinds n (scan (kinds.take n)) := by
  induction n with
  | zero =>
    refine ⟨rfl, fun i name => ⟨fun h => ?_, fun h => ?_⟩, fun i j => by simp [scan]⟩
    · cases h
    · exact absurd h.lt (Nat.not_lt_zero i)
  | succ n ih =>
    rw [List.take_succ_eq_append_getElem hn, scan_concat]
    exact (ih (Nat.le_of_succ_le hn)).read (nested_scan _) (List.getElem?_eq_getElem hn)

theorem matched_all (kinds : List (Kind ν)) : Matched kinds kinds.length (scan kinds) := by
  have hm := matched_scan kinds kinds.length le_rfl
  rwa [List.take_length] at hm

theorem mem_spans (kinds : List (Kind ν)) (i j : ℕ) :
    (i, j) ∈ (scan kinds).spans ↔ Spanned kinds i j := by
  rw [(matched_all kinds).spans]
  refine ⟨fun h => h.2, fun h => ⟨?_, h⟩⟩
  rcases h with ⟨hj, -⟩ | hc
  · exact (List.getElem?_eq_some_iff.mp hj).1
  · obtain ⟨name, hj, -⟩ := closes_iff.mp hc
    exact (List.getElem?_eq_some_iff.mp hj).1

end GoraddServe.TagMatching
