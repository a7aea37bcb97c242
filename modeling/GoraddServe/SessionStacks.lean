import GoraddServe.SessionData
import Mathlib.Data.Set.Basic

/-!
# Stacks in a session

`PushStack`, `PopStack` and `ClearStack` keep a stack of strings under its name in the session.
The package `location` keeps its stack in the session of another package of the same shape,
which is not part of the repository.
-/
namespace GoraddServe.SessionStacks
open GoMaps SessionData

/-- A session package: what its operations make of its sessions, and what `PopStack` returns. -/
structure SessionPackage (E : Type*) where
  apply : SessionOp → E → E
  popStack : String → E → String

/-- The operations act on the data of a session as they are documented to. -/
structure SessionPackage.Laws {E : Type*} (p : SessionPackage E) (data : E → SessionMap) :
    Prop where
  apply : ∀ op e, data (p.apply op e) = op.apply (data e)
  popStack : ∀ stack e, p.popStack stack e = ((data e).popStack stack).1

/-- The package `session`. -/
def session : SessionPackage SessionMap where
  apply := SessionOp.apply
  popStack stack data := (data.popStack stack).1

theorem session_laws : session.Laws id := ⟨fun _ _ => rfl, fun _ _ => rfl⟩

def routesKey : String := "goradd.routes"

def pushRoute (loc : String) : SessionOp := .pushStack routesKey loc

def popRoute : SessionOp := .popStack routesKey

def clearRoutes : SessionOp := .clearStack routesKey

namespace Location

def locationsKey : String := "goradd.locations"

def push (loc : String) : SessionOp := .pushStack locationsKey loc

def pop : SessionOp := .popStack locationsKey

def clear : SessionOp := .clearStack locationsKey

end Location

/-- The values that were pushed and not popped yet, the last one at the end. -/
abbrev Stacks := String → List String

def Stacks.apply (lists : Stacks) : SessionOp → Stacks
  | .pushStack stack value => Function.update lists stack (lists stack ++ [value])
  | .popStack stack => Function.update lists stack (lists stack).dropLast
  | .clearStack stack => Function.update lists stack []
  | _ => lists

/-- What `PopStack` of a stack is for. -/
def Stacks.top (lists : Stacks) (stack : String) : String := (lists stack).getLast?.getD ""

def Stacks.run (ops : List SessionOp) (lists : Stacks) : Stacks :=
  ops.foldl Stacks.apply lists

def OnStack : SessionOp → Prop
  | .pushStack .. | .popStack _ | .clearStack _ => True
  | _ => False

def Respects (names : Set String) (op : SessionOp) : Prop :=
  ∀ k ∈ names, op.Touches k → OnStack op

/-- An empty stack has no entry in the session. -/
def Represents (names : Set String) (lists : Stacks) (data : SessionMap) : Prop :=
  ∀ k ∈ names, data.get k = if lists k = [] then none else some (.strings (lists k))

section Steps

variable {names : Set String} {lists : Stacks} {data : SessionMap} {op : SessionOp} {k : String}

theorem Represents.strings_eq (h : Represents names lists data) (hk : k ∈ names) :
    strings (data.get k) = lists k := by
  rw [h k hk]
  split_ifs with hnil
  · exact hnil.symm
  · rfl

theorem Represents.apply (h : Represents names lists data) (hop : Respects names op) :
    Represents names (lists.apply op) (op.apply data) := by
  intro k hk
  have hstrings := h.strings_eq hk
  rw [SessionOp.get_apply]
  by_cases htouch : op.Touches k
  · cases op with
    | pushStack stack value =>
      obtain rfl : stack = k := htouch
      simp [SessionOp.effect, Stacks.apply, hstrings]
    | popStack stack =>
      obtain rfl : stack = k := htouch
      simp only [SessionOp.effect, if_true, hstrings, Stacks.apply, Function.update_self,
        List.length_eq_zero_iff]
    | clearStack stack =>
      obtain rfl : stack = k := htouch
      simp [SessionOp.effect, Stacks.apply]
    | set | remove | clear | reset => exact absurd (hop k hk htouch) id
  · have hsame : lists.apply op k = lists k := by
      cases op with
      | pushStack stack | popStack stack | clearStack stack =>
        exact Function.update_of_ne (Ne.symm htouch) _ _
      | set | remove | clear | reset => rfl
    rw [SessionOp.effect_of_not_touches htouch, hsame, h k hk]

theorem Represents.popStack (h : Represents names lists data) (hk : k ∈ names) :
    (data.popStack k).1 = lists.top k := by
  rw [SessionMap.popStack, h.strings_eq hk, Stacks.top]

end Steps

section Runs

variable {E : Type*} {p : SessionPackage E} {data : E → SessionMap} {names : Set String}
  {lists : Stacks} {e : E} {ops : List SessionOp}

def SessionPackage.run (p : SessionPackage E) (ops : List SessionOp) (e : E) : E :=
  ops.foldl (fun e op => p.apply op e) e

theorem SessionPackage.run_append (p : SessionPackage E) (op : SessionOp) :
    p.run (ops ++ [op]) e = p.apply op (p.run ops e) := by
  simp [SessionPackage.run]

theorem Represents.run (hp : p.Laws data) (h : Represents names lists (data e))
    (hops : ∀ op ∈ ops, Respects names op) :
    Represents names (lists.run ops) (data (p.run ops e)) := by
  induction ops generalizing lists e with
  | nil => exact h
  | cons op ops ih =>
    obtain ⟨hop, hops⟩ := List.forall_mem_cons.mp hops
    refine ih (e := p.apply op e) ?_ hops
    rw [hp.apply]
    exact h.apply hop

/-- The stacks of a session are lists. At every moment the session has an entry under the name
of a stack exactly when the stack is not empty, and `PopStack` returns the top of its stack, or
an empty string. An operation leaves the entries alone that it does not name. -/
theorem stacks_are_lists (hp : p.Laws data) (h : Represents names lists (data e))
    (hops : ∀ op ∈ ops, Respects names op) :
    ∀ before after, ops = before ++ after →
      (∀ k ∈ names, (data (p.run before e)).get k =
        if lists.run before k = [] then none else some (.strings (lists.run before k))) ∧
      (∀ k ∈ names, ∀ rest, after = .popStack k :: rest →
        p.popStack k (p.run before e) = (lists.run before).top k) ∧
      (∀ op rest, after = op :: rest → ∀ k, ¬op.Touches k →
        (data (p.run (before ++ [op]) e)).get k = (data (p.run before e)).get k) := by
  rintro before after rfl
  have hbefore := h.run hp fun op hop => hops op (List.mem_append_left _ hop)
  refine ⟨hbefore, fun k hk rest _ => ?_, fun op rest _ k htouch => ?_⟩
  · rw [hp.popStack, hbefore.popStack hk]
  · rw [SessionPackage.run_append, hp.apply, SessionOp.get_apply,
      SessionOp.effect_of_not_touches htouch]

end Runs

/-- A handler that uses a stack of its own beside the routes. -/
def handlerOps : List SessionOp :=
  [.pushStack "test.stack" "A", .pushStack "test.stack" "B", pushRoute "Here",
    SessionOp.setInt "count" 1, pushRoute "There", .popStack "test.stack", clearRoutes, popRoute]

theorem stacks_are_lists_handler : ∃ data : SessionMap,
    data = session.run (handlerOps.take 7) ∅ ∧
      data.get "test.stack" = some (.strings ["A"]) ∧ session.popStack routesKey data = "" := by
  have hnames : ∀ op ∈ handlerOps, Respects {"test.stack", routesKey} op := by
    simp [handlerOps, Respects, pushRoute, popRoute, clearRoutes, OnStack, SessionOp.Touches,
      SessionOp.setInt, routesKey]
  have hempty : Represents {"test.stack", routesKey} (fun _ => []) (∅ : SessionMap) :=
    fun k _ => GoMap.get_empty k
  obtain ⟨hget, hpop, -⟩ := stacks_are_lists session_laws hempty hnames (handlerOps.take 7)
    [popRoute] rfl
  have hA : Stacks.run (handlerOps.take 7) (fun _ => []) "test.stack" = ["A"] := by decide
  refine ⟨_, rfl, (hget "test.stack" (by simp)).trans ?_,
    (hpop routesKey (by simp) [] rfl).trans ?_⟩
  · rw [hA]
    rfl
  · decide

end GoraddServe.SessionStacks
