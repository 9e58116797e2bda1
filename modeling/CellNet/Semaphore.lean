import CellNet.Thread
import Mathlib.Data.Finset.Card
import Mathlib.Tactic.Linarith

/-!
# Counting waits and wake-ups

A `CELLSemaphore` used by any number of threads. A step is one locked section : a call of
`wait()` up to where it completes or blocks, a call of `wakeup()`, or a blocked thread that
wakes up, whether it was notified or not, and tests `_wakeup > 0` again.

`_wait` is the number of `wakeup()` calls less the number of `wait()` calls, and `_wakeup`
counts the blocked threads that may go on. `Counted` links the two : the blocked threads
that may not go on yet are as many as `_wait` is below zero. A thread that arrives while
`_wakeup > 0` may take the place of a blocked one, which changes neither number.
-/

namespace CellNet

/-- A semaphore with the threads `τ` that use it. -/
structure SharedSemaphore (τ : Type) where
  sem : CELLSemaphore
  /-- The threads in the wait of `wait()`. -/
  blocked : Finset τ
  /-- The calls of `wait()` that have completed. -/
  waits : ℕ
  /-- The calls of `wakeup()`. -/
  wakeups : ℕ

/-- What a thread does. -/
inductive SemaphoreAct (τ : Type)
  /-- It calls `wait()`. -/
  | wait (t : τ)
  /-- It calls `wakeup()`. -/
  | wakeup (t : τ)
  /-- It wakes up in `wait()`. -/
  | resume (t : τ)

namespace SharedSemaphore

variable {τ : Type}

/-- A new semaphore. -/
def new : SharedSemaphore τ :=
  ⟨.new, ∅, 0, 0⟩

/-- The end of a call of `wait()`. -/
def completed (s : SharedSemaphore τ) : SharedSemaphore τ :=
  { s with waits := s.waits + 1 }

variable [DecidableEq τ]

/-- The wait for `_wakeup > 0`, for the thread `t` : it goes on, or blocks. -/
def await (s : SharedSemaphore τ) (t : τ) : SharedSemaphore τ :=
  if s.sem.ready then { s with sem := s.sem.leave, blocked := s.blocked.erase t }.completed
  else { s with blocked := insert t s.blocked }

/-- One locked section. A blocked thread makes no call, and only a blocked one wakes up. -/
def act (s : SharedSemaphore τ) : SemaphoreAct τ → Option (SharedSemaphore τ)
  | .wait t =>
    if t ∈ s.blocked then none
    else
      let (blocks, sem) := s.sem.enter
      if blocks then some ({ s with sem }.await t) else some { s with sem }.completed
  | .wakeup t =>
    if t ∈ s.blocked then none
    else some { s with sem := s.sem.notify, wakeups := s.wakeups + 1 }
  | .resume t => if t ∈ s.blocked then some (s.await t) else none

end SharedSemaphore

namespace SharedSemaphore

variable {τ : Type} {s s' : SharedSemaphore τ} {t : τ}

/-! ## The counters -/

/-- What the counters count. -/
structure Counted (s : SharedSemaphore τ) : Prop where
  nonneg : 0 ≤ s.sem.wakeup
  wait : s.sem.wait = s.wakeups - s.waits - s.blocked.card
  waiting : s.blocked.card - s.sem.wakeup = max 0 (-s.sem.wait)

theorem Counted.new : (new : SharedSemaphore τ).Counted :=
  ⟨le_refl _, rfl, rfl⟩

/-- A thread that does not have to wait. -/
theorem Counted.pass (hs : s.Counted) (hpos : 1 ≤ s.sem.wait) :
    { s with sem := { s.sem with wait := s.sem.wait - 1 } }.completed.Counted := by
  obtain ⟨hnonneg, hwait, hwaiting⟩ := hs
  rw [max_eq_left (by omega)] at hwaiting
  refine ⟨hnonneg, ?_, ?_⟩
  · simp only [completed]
    push_cast
    omega
  · simp only [completed]
    rw [max_eq_left (by omega)]
    exact hwaiting

theorem Counted.notify (hs : s.Counted) :
    { s with sem := s.sem.notify, wakeups := s.wakeups + 1 }.Counted := by
  obtain ⟨hnonneg, hwait, hwaiting⟩ := hs
  unfold CELLSemaphore.notify
  split
  · rw [max_eq_right (by omega)] at hwaiting
    refine ⟨?_, ?_, ?_⟩
    · simp only
      omega
    · simp only
      push_cast
      omega
    · simp only
      rw [max_eq_right (by omega)]
      omega
  · rw [max_eq_left (by omega)] at hwaiting
    refine ⟨hnonneg, ?_, ?_⟩
    · simp only
      push_cast
      omega
    · simp only
      rw [max_eq_left (by omega)]
      exact hwaiting

variable [DecidableEq τ]

/-- A thread that has to wait takes a wake-up that is there, or blocks. -/
theorem Counted.await (hs : s.Counted) (ht : t ∉ s.blocked) (hneg : s.sem.wait ≤ 0) :
    ({ s with sem := { s.sem with wait := s.sem.wait - 1 } }.await t).Counted := by
  obtain ⟨hnonneg, hwait, hwaiting⟩ := hs
  rw [max_eq_right (by omega)] at hwaiting
  by_cases hready : 0 < s.sem.wakeup
  · have hblocked : s.blocked.erase t = s.blocked := Finset.erase_eq_of_notMem ht
    simp only [SharedSemaphore.await, CELLSemaphore.ready, hready, decide_true, if_true,
      completed, CELLSemaphore.leave, hblocked]
    refine ⟨?_, ?_, ?_⟩
    · simp only
      omega
    · simp only
      push_cast
      omega
    · simp only
      rw [max_eq_right (by omega)]
      omega
  · have hcard : (insert t s.blocked).card = s.blocked.card + 1 := Finset.card_insert_of_notMem ht
    simp only [SharedSemaphore.await, CELLSemaphore.ready, hready, decide_false,
      Bool.false_eq_true, if_false]
    refine ⟨hnonneg, ?_, ?_⟩
    · simp only [hcard]
      push_cast
      omega
    · simp only [hcard]
      rw [max_eq_right (by omega)]
      push_cast
      omega

/-- A blocked thread that wakes up goes on, or blocks again. -/
theorem Counted.resume (hs : s.Counted) (ht : t ∈ s.blocked) : (s.await t).Counted := by
  obtain ⟨hnonneg, hwait, hwaiting⟩ := hs
  by_cases hready : 0 < s.sem.wakeup
  · have hcard := Finset.card_erase_add_one ht
    simp only [SharedSemaphore.await, CELLSemaphore.ready, hready, decide_true, if_true,
      completed, CELLSemaphore.leave]
    refine ⟨?_, ?_, ?_⟩
    · simp only
      omega
    · simp only
      push_cast
      omega
    · simp only
      omega
  · have hblocked : insert t s.blocked = s.blocked := Finset.insert_eq_of_mem ht
    simp only [SharedSemaphore.await, CELLSemaphore.ready, hready, decide_false,
      Bool.false_eq_true, if_false, hblocked]
    exact ⟨hnonneg, hwait, hwaiting⟩

theorem Counted.step {a : SemaphoreAct τ} (hs : s.Counted) (h : s.act a = some s') :
    s'.Counted := by
  cases a with
  | wait t =>
    by_cases ht : t ∈ s.blocked
    · simp [act, ht] at h
    by_cases hneg : s.sem.wait - 1 < 0
    · obtain rfl : { s with sem := { s.sem with wait := s.sem.wait - 1 } }.await t = s' := by
        simpa [act, CELLSemaphore.enter, ht, hneg] using h
      exact hs.await ht (by omega)
    · obtain rfl : { s with sem := { s.sem with wait := s.sem.wait - 1 } }.completed = s' := by
        simpa [act, CELLSemaphore.enter, ht, hneg] using h
      exact hs.pass (by omega)
  | wakeup t =>
    simp only [act] at h
    split at h
    · simp at h
    · obtain rfl := Option.some.inj h
      exact hs.notify
  | resume t =>
    simp only [act] at h
    split at h
    · obtain rfl := Option.some.inj h
      exact hs.resume ‹_›
    · simp at h

end SharedSemaphore

end CellNet
