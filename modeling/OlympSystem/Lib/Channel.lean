/-
  Lib.Channel — a bounded FIFO channel with completion.

  A write is possible while the channel is not completed and has room; it fails once
  the channel is completed. A read takes the oldest element; it fails on an empty
  completed channel. Neither changes anything when it is not possible. That the buffer
  never holds more than the capacity is a field of the channel.
-/

namespace Lib.Channel

structure Chan (cap : Nat) (α : Type) where
  buf : List α
  completed : Bool
  bounded : buf.length ≤ cap

variable {cap : Nat} {α : Type}

namespace Chan

def empty : Chan cap α := ⟨[], false, Nat.zero_le _⟩

/-- The channel after a write, if a write is possible. -/
def write (c : Chan cap α) (a : α) : Option (Chan cap α) :=
  if h : c.completed = false ∧ c.buf.length < cap then
    some ⟨c.buf ++ [a], c.completed, by simp only [List.length_append, List.length_singleton]; omega⟩
  else none

def read (c : Chan cap α) : Option (α × Chan cap α) :=
  match h : c.buf with
  | a :: rest => some (a, ⟨rest, c.completed, by have := c.bounded; simp only [h, List.length_cons] at this; omega⟩)
  | [] => none

def complete (c : Chan cap α) : Chan cap α := { c with completed := true }

def writeFails (c : Chan cap α) : Bool := c.completed

def readFails (c : Chan cap α) : Bool := c.completed && c.buf.isEmpty

@[simp] theorem complete_buf (c : Chan cap α) : c.complete.buf = c.buf := rfl
@[simp] theorem complete_completed (c : Chan cap α) : c.complete.completed = true := rfl

theorem write_some {c c' : Chan cap α} {a : α} (h : c.write a = some c') :
    c.completed = false ∧ c'.buf = c.buf ++ [a] ∧ c'.completed = c.completed := by
  unfold write at h
  split at h
  · rename_i hc; cases h; exact ⟨hc.1, rfl, rfl⟩
  · cases h

theorem write_completed {c : Chan cap α} (h : c.completed = true) (a : α) : c.write a = none := by
  simp [write, h]

theorem read_some {c c' : Chan cap α} {a : α} (h : c.read = some (a, c')) :
    c.buf = a :: c'.buf ∧ c'.completed = c.completed := by
  unfold read at h
  split at h
  · cases h; exact ⟨‹_›, rfl⟩
  · cases h

theorem read_none {c : Chan cap α} : c.read = none ↔ c.buf = [] := by
  unfold read
  split
  · rename_i h; simp [h]
  · rename_i h; simp [h]

end Chan

end Lib.Channel
