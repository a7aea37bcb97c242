import Mathlib.Data.List.Basic
import Mathlib.Data.Nat.Notation

/-!
# Buffered channels

A channel of capacity `cap` is a queue that never holds more than `cap` values. A send
on a full channel and a receive on an empty one block; both are the result `none` here.
-/
namespace GoraddServe.BufferedChannels

variable {α : Type*} {cap : ℕ}

/-- The waiting values, the oldest first. -/
structure Channel (α : Type*) (cap : ℕ) where
  buf : List α
  bounded : buf.length ≤ cap

namespace Channel

@[ext] theorem ext {c d : Channel α cap} (h : c.buf = d.buf) : c = d := by
  cases c; cases d; cases h; rfl

def make : Channel α cap := ⟨[], Nat.zero_le cap⟩

instance : Inhabited (Channel α cap) := ⟨make⟩

/-- `len(c)` -/
def len (c : Channel α cap) : ℕ := c.buf.length

/-- `c <- a` -/
def send (c : Channel α cap) (a : α) : Option (Channel α cap) :=
  if h : c.buf.length < cap then
    some ⟨c.buf ++ [a], by rw [List.length_append]; exact h⟩
  else none

/-- `<-c` -/
def receive (c : Channel α cap) : Option (α × Channel α cap) :=
  c.buf.head?.map fun a =>
    (a, ⟨c.buf.tail, by
      rw [List.length_tail]
      exact Nat.le_trans (Nat.sub_le _ _) c.bounded⟩)

theorem len_le (c : Channel α cap) : c.len ≤ cap := c.bounded

theorem send_eq_some {c d : Channel α cap} {a : α} :
    c.send a = some d ↔ c.len < cap ∧ d.buf = c.buf ++ [a] := by
  unfold send len
  split
  · rename_i h
    simp only [Option.some.injEq]
    constructor
    · rintro rfl
      exact ⟨h, rfl⟩
    · rintro ⟨-, hd⟩
      exact ext hd.symm
  · rename_i h
    simp [h]

theorem send_eq_none {c : Channel α cap} {a : α} : c.send a = none ↔ c.len = cap := by
  have hle := c.len_le
  unfold send
  split
  · rename_i h
    simp only [reduceCtorEq, false_iff]
    exact Nat.ne_of_lt h
  · rename_i h
    simp only [true_iff]
    exact Nat.le_antisymm hle (Nat.le_of_not_lt h)

theorem receive_eq_some {c d : Channel α cap} {a : α} :
    c.receive = some (a, d) ↔ c.buf = a :: d.buf := by
  simp only [receive, Option.map_eq_some_iff, Prod.mk.injEq, List.head?_eq_some_iff]
  constructor
  · rintro ⟨b, ⟨rest, hb⟩, rfl, rfl⟩
    simp [hb]
  · intro h
    exact ⟨a, ⟨d.buf, h⟩, rfl, ext (by simp [h])⟩

theorem receive_eq_none {c : Channel α cap} : c.receive = none ↔ c.len = 0 := by
  simp [receive, len]

end Channel

end GoraddServe.BufferedChannels
