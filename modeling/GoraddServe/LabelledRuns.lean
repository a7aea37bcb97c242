import Mathlib.Data.List.Basic

/-!
# Finite runs of a labelled step function

A step function says, for a state and a label, which state comes next, or that the
label is not enabled there. All the choices of a nondeterministic system are put
into its labels, so an interleaving is a list of labels. A run keeps its history:
every label together with the state in which it was taken. A path is a run without end.
-/
namespace GoraddServe.LabelledRuns

variable {σ α τ β : Type*}

/-- `Run step s hist t` : the steps of `hist`, oldest first, lead from `s` to `t`. -/
inductive Run (step : σ → α → Option σ) (s : σ) : List (σ × α) → σ → Prop where
  | start : Run step s [] s
  | next {hist : List (σ × α)} {t u : σ} {a : α} (run : Run step s hist t)
      (taken : step t a = some u) : Run step s (hist ++ [(t, a)]) u

/-- A step when there is a label, no change when there is none. -/
def StepOrStay (step : σ → α → Option σ) (s : σ) : Option α → σ → Prop
  | none, t => t = s
  | some a, t => step s a = some t

namespace Run

variable {step : σ → α → Option σ} {s t u : σ} {hist hist' : List (σ × α)} {a : α}

theorem one (h : step s a = some t) : Run step s [(s, a)] t := .next .start h

theorem trans (h : Run step s hist t) (h' : Run step t hist' u) :
    Run step s (hist ++ hist') u := by
  induction h' with
  | start => simpa using h
  | next _ taken ih => simpa [← List.append_assoc] using ih.next taken

theorem invariant_of {C : σ → α → Prop} {I : σ → Prop}
    (hstep : ∀ t a u, I t → C t a → step t a = some u → I u)
    (h : Run step s hist t) (hC : ∀ e ∈ hist, C e.1 e.2) (hs : I s) : I t := by
  induction h with
  | start => exact hs
  | next _ taken ih =>
    simp only [List.mem_append, List.mem_singleton] at hC
    exact hstep _ _ _ (ih fun e he => hC e (.inl he)) (hC _ (.inr rfl)) taken

theorem invariant {I : σ → Prop} (hstep : ∀ t a u, I t → step t a = some u → I u)
    (h : Run step s hist t) (hs : I s) : I t :=
  h.invariant_of (C := fun _ _ => True) (fun t a u ht _ => hstep t a u ht) (fun _ _ => trivial) hs

theorem history_of {C : σ → α → Prop} {J : List (σ × α) → σ → Prop}
    (hstep : ∀ hist t a u, Run step s hist t → J hist t → C t a → step t a = some u →
      J (hist ++ [(t, a)]) u)
    (h : Run step s hist t) (hC : ∀ e ∈ hist, C e.1 e.2) (hs : J [] s) : J hist t := by
  induction h with
  | start => exact hs
  | next run taken ih =>
    simp only [List.mem_append, List.mem_singleton] at hC
    exact hstep _ _ _ _ run (ih fun e he => hC e (.inl he)) (hC _ (.inr rfl)) taken

theorem at_prefix {head : List (σ × α)} {e : σ × α} (h : Run step s hist t)
    (hpre : head ++ [e] <+: hist) : ∃ u, Run step s head e.1 ∧ step e.1 e.2 = some u := by
  induction h with
  | start => simp at hpre
  | @next hist t u a run taken ih =>
    rcases List.prefix_concat_iff.mp hpre with heq | hpre
    · obtain ⟨rfl, hlast⟩ := List.append_inj' heq rfl
      cases hlast
      exact ⟨u, run, taken⟩
    · exact ih hpre

theorem at_mem {e : σ × α} (h : Run step s hist t) (he : e ∈ hist) :
    ∃ head u, head ++ [e] <+: hist ∧ Run step s head e.1 ∧ step e.1 e.2 = some u := by
  obtain ⟨head, tail, hsplit⟩ := List.append_of_mem he
  have hpre : head ++ [e] <+: hist := by
    rw [hsplit]
    exact ⟨tail, List.append_assoc ..⟩
  obtain ⟨u, hrun, hstep⟩ := h.at_prefix hpre
  exact ⟨head, u, hpre, hrun, hstep⟩

theorem project {step' : τ → β → Option τ} (f : σ → τ) (label : σ → α → Option β)
    (hstep : ∀ t a u, step t a = some u → StepOrStay step' (f t) (label t a) (f u))
    (h : Run step s hist t) :
    Run step' (f s) (hist.filterMap fun e => (label e.1 e.2).map (f e.1, ·)) (f t) := by
  induction h with
  | start => exact .start
  | @next hist t u a run taken ih =>
    have hs := hstep t a u taken
    cases hl : label t a with
    | none =>
      rw [hl] at hs
      simpa [List.filterMap_append, hl, show f u = f t from hs] using ih
    | some b =>
      rw [hl] at hs
      simpa [List.filterMap_append, hl] using ih.next hs

theorem filter {C : σ → α → Prop} [∀ t a, Decidable (C t a)]
    (hstay : ∀ t a u, step t a = some u → ¬C t a → u = t) (h : Run step s hist t) :
    Run step s (hist.filter fun e => C e.1 e.2) t := by
  induction h with
  | start => exact .start
  | @next hist t u a run taken ih =>
    rw [List.filter_append]
    by_cases hC : C t a
    · simpa [hC] using ih.next taken
    · obtain rfl := hstay t a u taken hC
      simpa [hC] using ih

end Run

/-- Take the labels of a list one after another. -/
def exec (step : σ → α → Option σ) (s : σ) (labels : List α) : Option σ :=
  labels.foldlM step s

theorem run_of_exec {step : σ → α → Option σ} {s t : σ} {labels : List α}
    (h : exec step s labels = some t) : ∃ hist, Run step s hist t ∧ hist.map Prod.snd = labels := by
  induction labels generalizing s with
  | nil =>
    obtain rfl : s = t := by simpa [exec] using h
    exact ⟨[], .start, rfl⟩
  | cons a labels ih =>
    simp only [exec, List.foldlM_cons, Option.bind_eq_bind, Option.bind_eq_some_iff] at h
    obtain ⟨u, hu, hrest⟩ := h
    obtain ⟨hist, run, hl⟩ := ih hrest
    exact ⟨(s, a) :: hist, (Run.one hu).trans run, by simp [hl]⟩

/-- The state reached when none of the labels is refused. -/
def final (step : σ → α → Option σ) (s : σ) (labels : List α)
    (h : (exec step s labels).isSome = true) : σ := (exec step s labels).get h

theorem run_final {step : σ → α → Option σ} {s : σ} {labels : List α}
    (h : (exec step s labels).isSome = true) :
    ∃ hist, Run step s hist (final step s labels h) ∧ hist.map Prod.snd = labels :=
  run_of_exec (Option.some_get h).symm

/-- The steps that the labels of a list take, with the states before them. -/
def history (step : σ → α → Option σ) (s : σ) : List α → List (σ × α)
  | [] => []
  | a :: labels => (s, a) :: (step s a).elim [] (history step · labels)

theorem run_history {step : σ → α → Option σ} {s t : σ} {labels : List α}
    (h : exec step s labels = some t) : Run step s (history step s labels) t := by
  induction labels generalizing s with
  | nil =>
    obtain rfl : s = t := by simpa [exec] using h
    exact .start
  | cons a labels ih =>
    simp only [exec, List.foldlM_cons, Option.bind_eq_bind, Option.bind_eq_some_iff] at h
    obtain ⟨u, hu, hrest⟩ := h
    rw [history, hu]
    exact (Run.one hu).trans (ih hrest)

theorem map_history {step : σ → α → Option σ} {s t : σ} {labels : List α}
    (h : exec step s labels = some t) : (history step s labels).map Prod.snd = labels := by
  induction labels generalizing s with
  | nil => rfl
  | cons a labels ih =>
    simp only [exec, List.foldlM_cons, Option.bind_eq_bind, Option.bind_eq_some_iff] at h
    obtain ⟨u, hu, hrest⟩ := h
    rw [history, hu, List.map_cons]
    exact congrArg (a :: ·) (ih hrest)

/-- After some entry with `p` every entry has `q`. -/
def Since (p q : β → Prop) (hist : List β) : Prop :=
  ∃ before e after, hist = before ++ e :: after ∧ p e ∧ ∀ e' ∈ after, q e'

section Since

variable {p p' q q' : β → Prop} {hist : List β} {e : β}

theorem not_since_nil : ¬Since p q [] := by
  rintro ⟨before, e, after, hsplit, -, -⟩
  simp at hsplit

theorem since_append : Since p q (hist ++ [e]) ↔ p e ∨ q e ∧ Since p q hist := by
  constructor
  · rintro ⟨before, e', after, hsplit, hp, hq⟩
    rcases List.eq_nil_or_concat' after with rfl | ⟨after, last, rfl⟩
    · obtain ⟨-, hlast⟩ := List.append_inj' hsplit rfl
      cases hlast
      exact .inl hp
    · rw [← List.cons_append, ← List.append_assoc] at hsplit
      obtain ⟨rfl, hlast⟩ := List.append_inj' hsplit rfl
      cases hlast
      exact .inr ⟨hq e (by simp), before, e', after, rfl, hp, fun a ha => hq a (by simp [ha])⟩
  · rintro (hp | ⟨hq, before, e', after, rfl, hp, hall⟩)
    · exact ⟨hist, e, [], rfl, hp, by simp⟩
    · refine ⟨before, e', after ++ [e], by simp, hp, fun a ha => ?_⟩
      rcases List.mem_append.mp ha with ha | ha
      · exact hall a ha
      · exact List.mem_singleton.mp ha ▸ hq

theorem Since.imp (h : Since p q hist) (hp : ∀ e ∈ hist, p e → p' e)
    (hq : ∀ e ∈ hist, q e → q' e) : Since p' q' hist := by
  obtain ⟨before, e, after, rfl, he, hall⟩ := h
  exact ⟨before, e, after, rfl, hp e (by simp) he, fun a ha => hq a (by simp [ha]) (hall a ha)⟩

end Since

/-- Infinitely many moments, at each of which a step is taken or nothing happens. -/
structure Path (step : σ → α → Option σ) (s : σ) where
  state : ℕ → σ
  label : ℕ → Option α
  start : state 0 = s
  next : ∀ i, StepOrStay step (state i) (label i) (state (i + 1))

namespace Path

variable {step : σ → α → Option σ} {s : σ} {i j : ℕ}

def stay (step : σ → α → Option σ) (s : σ) : Path step s := ⟨fun _ => s, fun _ => none, rfl,
  fun _ => rfl⟩

theorem reaches (p : Path step s) (i : ℕ) : ∃ hist, Run step s hist (p.state i) := by
  induction i with
  | zero =>
    rw [p.start]
    exact ⟨[], .start⟩
  | succ i ih =>
    obtain ⟨hist, run⟩ := ih
    have hnext := p.next i
    cases hl : p.label i with
    | none =>
      rw [hl] at hnext
      exact ⟨hist, (show p.state (i + 1) = p.state i from hnext) ▸ run⟩
    | some a =>
      rw [hl] at hnext
      exact ⟨_, run.next hnext⟩

theorem related {R : σ → σ → Prop} (hrefl : ∀ t, R t t) (htrans : ∀ t u v, R t u → R u v → R t v)
    (hstep : ∀ t a u, step t a = some u → R t u) (p : Path step s) (hij : i ≤ j) :
    R (p.state i) (p.state j) := by
  induction hij with
  | refl => exact hrefl _
  | @step j hij ih =>
    refine htrans _ _ _ ih ?_
    have hnext := p.next j
    cases hl : p.label j with
    | none =>
      rw [hl] at hnext
      exact (show p.state (j + 1) = p.state j from hnext) ▸ hrefl _
    | some a =>
      rw [hl] at hnext
      exact hstep _ a _ hnext

/-- What holds at one moment and does not at a later one is ended by a step between them. -/
theorem exists_step {P : σ → Prop} (p : Path step s) (hij : i ≤ j) (hi : P (p.state i))
    (hj : ¬P (p.state j)) : ∃ k a, i ≤ k ∧ P (p.state k) ∧
      step (p.state k) a = some (p.state (k + 1)) ∧ ¬P (p.state (k + 1)) := by
  induction hij with
  | refl => exact absurd hi hj
  | @step j hij ih =>
    by_cases hP : P (p.state j)
    · have hnext := p.next j
      cases hl : p.label j with
      | none =>
        rw [hl] at hnext
        exact absurd ((show p.state (j + 1) = p.state j from hnext) ▸ hP) hj
      | some a =>
        rw [hl] at hnext
        exact ⟨j, a, hij, hP, hnext, hj⟩
    · exact ih hP

end Path

end GoraddServe.LabelledRuns
