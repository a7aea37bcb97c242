import Mathlib.Logic.Function.Basic

/-!
# Computations that may panic

A computation changes a state and ends with a value or with a panic. What it has changed
stays changed while a panic unwinds the stack, so the state comes after the outcome.
-/
namespace GoraddServe.Panics

variable {ρ σ τ α β : Type}

/-- A computation on the state `σ` that may panic with a `ρ`. -/
abbrev GoM (ρ σ : Type) := ExceptT ρ (StateM σ)

/-- How a computation ends when it starts in `s`, and the state it leaves. -/
def outcome (m : GoM ρ σ α) (s : σ) : Except ρ α × σ := StateT.run (ExceptT.run m) s

variable {m : GoM ρ σ α} {f : α → GoM ρ σ β} {g : ρ → GoM ρ σ α} {s t : σ} {a : α} {p : ρ}

@[simp] theorem outcome_get : outcome (get : GoM ρ σ σ) s = (.ok s, s) := rfl

@[simp] theorem outcome_modify (f : σ → σ) :
    outcome (modify f : GoM ρ σ PUnit) s = (.ok ⟨⟩, f s) := rfl

theorem outcome_bind : outcome (m >>= f) s =
    match outcome m s with
    | (.ok a, t) => outcome (f a) t
    | (.error p, t) => (.error p, t) := by
  have hbind : outcome (m >>= f) s =
      StateT.run (ExceptT.bindCont f (outcome m s).1) (outcome m s).2 := rfl
  rw [hbind]
  obtain ⟨result, t⟩ := outcome m s
  cases result <;> rfl

theorem outcome_bind_ok (h : outcome m s = (.ok a, t)) :
    outcome (m >>= f) s = outcome (f a) t := by rw [outcome_bind, h]

theorem outcome_bind_error (h : outcome m s = (.error p, t)) :
    outcome (m >>= f) s = (.error p, t) := by rw [outcome_bind, h]

theorem outcome_bind_eq_ok {b : β} : outcome (m >>= f) s = (.ok b, t) ↔
    ∃ a u, outcome m s = (.ok a, u) ∧ outcome (f a) u = (.ok b, t) := by
  rw [outcome_bind]
  obtain ⟨result, u⟩ := outcome m s
  cases result with
  | ok a =>
    refine ⟨fun h => ⟨a, u, rfl, h⟩, ?_⟩
    rintro ⟨a', u', h, h'⟩
    cases h
    exact h'
  | error p => simp

theorem outcome_tryCatch : outcome (tryCatch m g) s =
    match outcome m s with
    | (.ok a, t) => (.ok a, t)
    | (.error p, t) => outcome (g p) t := by
  have hcatch : outcome (tryCatch m g) s = StateT.run (match (outcome m s).1 with
    | .ok a => pure (.ok a)
    | .error p => ExceptT.run (g p)) (outcome m s).2 := rfl
  rw [hcatch]
  obtain ⟨result, t⟩ := outcome m s
  cases result <;> rfl

theorem outcome_tryCatch_error (h : outcome m s = (.error p, t)) :
    outcome (tryCatch m g) s = outcome (g p) t := by rw [outcome_tryCatch, h]

/-- The computation does not change what `view` shows of the state, and panics only with what `P`
allows. -/
def Keeps (view : σ → τ) (P : ρ → Prop) (m : GoM ρ σ α) : Prop :=
  ∀ s, view (outcome m s).2 = view s ∧ ∀ p, (outcome m s).1 = .error p → P p

variable {view : σ → τ} {P Q : ρ → Prop}

theorem keeps_of_ok {u : σ → σ} {f : σ → α} (h : ∀ s, outcome m s = (.ok (f s), u s))
    (hview : ∀ s, view (u s) = view s) : Keeps view P m := by
  intro s
  rw [h]
  exact ⟨hview s, fun p hp => by cases hp⟩

theorem keeps_pure : Keeps view P (pure a : GoM ρ σ α) := keeps_of_ok (fun _ => rfl) fun _ => rfl

theorem keeps_get : Keeps view P (get : GoM ρ σ σ) := keeps_of_ok (fun _ => rfl) fun _ => rfl

theorem keeps_modify {f : σ → σ} (hf : ∀ s, view (f s) = view s) :
    Keeps view P (modify f : GoM ρ σ PUnit) := keeps_of_ok (fun _ => rfl) hf

theorem keeps_throw (hp : P p) : Keeps view P (throw p : GoM ρ σ α) := by
  refine fun s => ⟨rfl, fun q hq => ?_⟩
  cases hq
  exact hp

theorem keeps_throw_bind (hp : P p) : Keeps view P ((throw p : GoM ρ σ α) >>= f) := by
  refine fun s => ⟨rfl, fun q hq => ?_⟩
  cases hq
  exact hp

theorem keeps_bind (hm : Keeps view P m) (hf : ∀ a, Keeps view P (f a)) :
    Keeps view P (m >>= f) := by
  intro s
  have hs := hm s
  rw [outcome_bind]
  revert hs
  obtain ⟨result, t⟩ := outcome m s
  cases result with
  | ok a => exact fun hs => ⟨(hf a t).1.trans hs.1, (hf a t).2⟩
  | error p => exact fun hs => ⟨hs.1, fun q hq => by cases hq; exact hs.2 p rfl⟩

theorem keeps_tryCatch (hm : Keeps view Q m) (hg : ∀ p, Q p → Keeps view P (g p)) :
    Keeps view P (tryCatch m g) := by
  intro s
  have hs := hm s
  rw [outcome_tryCatch]
  revert hs
  obtain ⟨result, t⟩ := outcome m s
  cases result with
  | ok a => exact fun hs => ⟨hs.1, fun q hq => by cases hq⟩
  | error p =>
    intro hs
    have hp := hg p (hs.2 p rfl) t
    exact ⟨hp.1.trans hs.1, hp.2⟩

theorem Keeps.ok (h : Keeps view (fun _ => False) m) (s : σ) :
    ∃ a t, outcome m s = (.ok a, t) ∧ view t = view s := by
  have hs := h s
  revert hs
  obtain ⟨result, t⟩ := outcome m s
  cases result with
  | ok a => exact fun hs => ⟨a, t, rfl, hs.1⟩
  | error p => exact fun hs => (hs.2 p rfl).elim

theorem keeps_forIn {f : α → β → GoM ρ σ (ForInStep β)} (l : List α)
    (hf : ∀ a ∈ l, ∀ b, Keeps view P (f a b)) (b : β) : Keeps view P (forIn l b f) := by
  induction l generalizing b with
  | nil => exact keeps_pure
  | cons a l ih =>
    rw [List.forIn_cons]
    refine keeps_bind (hf a List.mem_cons_self b) fun next => ?_
    cases next with
    | done b => exact keeps_pure
    | yield b => exact ih (fun a ha => hf a (List.mem_cons_of_mem _ ha)) b

/-- The computation does not break the invariant `I`, and where `I` holds it panics only with what
`P` allows. -/
def Maintains (I : σ → Prop) (P : ρ → Prop) (m : GoM ρ σ α) : Prop :=
  ∀ s, I s → I (outcome m s).2 ∧ ∀ p, (outcome m s).1 = .error p → P p

variable {I : σ → Prop}

theorem maintains_of_ok {u : σ → σ} {f : σ → α} (h : ∀ s, outcome m s = (.ok (f s), u s))
    (hI : ∀ s, I s → I (u s)) : Maintains I P m := by
  intro s hs
  rw [h]
  exact ⟨hI s hs, fun p hp => by cases hp⟩

theorem maintains_pure : Maintains I P (pure a : GoM ρ σ α) :=
  maintains_of_ok (fun _ => rfl) fun _ => id

theorem maintains_modify {f : σ → σ} (hf : ∀ s, I s → I (f s)) :
    Maintains I P (modify f : GoM ρ σ PUnit) := maintains_of_ok (fun _ => rfl) hf

theorem maintains_throw (hp : P p) : Maintains I P (throw p : GoM ρ σ α) := by
  refine fun s hs => ⟨hs, fun q hq => ?_⟩
  cases hq
  exact hp

theorem maintains_bind (hm : Maintains I P m) (hf : ∀ a, Maintains I P (f a)) :
    Maintains I P (m >>= f) := by
  intro s hI
  have hs := hm s hI
  rw [outcome_bind]
  revert hs
  obtain ⟨result, t⟩ := outcome m s
  cases result with
  | ok a => exact fun hs => hf a t hs.1
  | error p => exact fun hs => ⟨hs.1, fun q hq => by cases hq; exact hs.2 p rfl⟩

theorem maintains_get_bind {f : σ → GoM ρ σ β} (hf : ∀ t, I t → Maintains I P (f t)) :
    Maintains I P (get >>= f) := by
  intro s hs
  rw [outcome_bind_ok outcome_get]
  exact hf s hs s hs

theorem maintains_tryCatch (hm : Maintains I Q m) (hg : ∀ p, Q p → Maintains I P (g p)) :
    Maintains I P (tryCatch m g) := by
  intro s hI
  have hs := hm s hI
  rw [outcome_tryCatch]
  revert hs
  obtain ⟨result, t⟩ := outcome m s
  cases result with
  | ok a => exact fun hs => ⟨hs.1, fun q hq => by cases hq⟩
  | error p => exact fun hs => hg p (hs.2 p rfl) t hs.1

theorem maintains_forIn {f : α → β → GoM ρ σ (ForInStep β)} (l : List α)
    (hf : ∀ a ∈ l, ∀ b, Maintains I P (f a b)) (b : β) : Maintains I P (forIn l b f) := by
  induction l generalizing b with
  | nil => exact maintains_pure
  | cons a l ih =>
    rw [List.forIn_cons]
    refine maintains_bind (hf a List.mem_cons_self b) fun next => ?_
    cases next with
    | done b => exact maintains_pure
    | yield b => exact ih (fun a ha => hf a (List.mem_cons_of_mem _ ha)) b

end GoraddServe.Panics
