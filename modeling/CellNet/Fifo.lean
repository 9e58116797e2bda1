import Mathlib.Data.List.TakeDrop
import Mathlib.Order.Basic

/-!
# Bounded queues and their history

`Fifo α cap` is a first-in first-out queue of at most `cap` items. `Ledger α cap` is
such a queue with everything that ever went in and everything that ever came out, and
carries the law of a queue as a field : what came out, then what is inside, is what
went in (`Ledger.balance`). Its operations are the only ways to build one, so a program
whose states are all tracked by ledgers loses, repeats and reorders nothing.
-/

namespace CellNet

variable {α : Type*} {cap : ℕ}

/-- A queue of at most `cap` items, the oldest first. -/
structure Fifo (α : Type*) (cap : ℕ) where
  items : List α
  length_le : items.length ≤ cap

namespace Fifo

/-- The empty queue. -/
def empty : Fifo α cap :=
  ⟨[], Nat.zero_le _⟩

/-- The room left. -/
def free (q : Fifo α cap) : ℕ :=
  cap - q.items.length

/-- The queue with `xs` behind its items. -/
def push (q : Fifo α cap) (xs : List α) (h : xs.length ≤ q.free) : Fifo α cap :=
  ⟨q.items ++ xs, by
    have := q.length_le
    simp only [free, List.length_append] at *
    omega⟩

/-- The queue without its `n` oldest items. -/
def drop (q : Fifo α cap) (n : ℕ) : Fifo α cap :=
  ⟨q.items.drop n, by
    have := q.length_le
    simp only [List.length_drop]
    omega⟩

end Fifo

/-- A queue with its history. -/
structure Ledger (α : Type*) (cap : ℕ) where
  queue : Fifo α cap
  /-- Everything that went in, in order. -/
  pushed : List α
  /-- Everything that came out, in order. -/
  taken : List α
  balance : taken ++ queue.items = pushed

namespace Ledger

/-- Nothing has happened yet. -/
def empty : Ledger α cap :=
  ⟨Fifo.empty, [], [], rfl⟩

/-- `xs` goes in. -/
def push (l : Ledger α cap) (xs : List α) (h : xs.length ≤ l.queue.free) : Ledger α cap :=
  ⟨l.queue.push xs h, l.pushed ++ xs, l.taken, by
    rw [Fifo.push, ← List.append_assoc, l.balance]⟩

/-- The `n` oldest items come out. -/
def take (l : Ledger α cap) (n : ℕ) : Ledger α cap :=
  ⟨l.queue.drop n, l.pushed, l.taken ++ l.queue.items.take n, by
    rw [Fifo.drop, List.append_assoc, List.take_append_drop, l.balance]⟩

end Ledger

end CellNet
