import CellNet.Machine
import Mathlib.Data.List.Basic

/-!
# Threads that are started and closed

`CELLThread` with the `CELLSemaphore` its `Close` waits with. One owner calls `Start` and
`Close`, each `Start` that finds `_isRun` false launches a worker, and a worker runs
`OnWork` : three callbacks, in each of which it may call `Exit`, and the two statements
behind them. A step is one lock operation, one access to `_isRun` or one operation of the
semaphore, and `OwnerPC` and `WorkerPC` are the places between two steps. A callback does
as it likes, so how it ends is up to the action : it may return at any time, because it
is done or because it saw `isRun()` turn false.

`thread` is the machine of all this. What the step of a worker can change is said once,
in `WorkerMoved`; `Sound` is the invariant of the mutex and the semaphore.
-/

namespace CellNet

/-! ## The semaphore -/

/-- A `CELLSemaphore`. The counters are unbounded : an `int` would overflow only after
2^31 calls of `wakeup` that no `wait` has answered. -/
structure CELLSemaphore where
  /-- `_wait`. -/
  wait : ℤ
  /-- `_wakeup`. -/
  wakeup : ℤ
  deriving DecidableEq, Repr

namespace CELLSemaphore

/-- A new semaphore. -/
def new : CELLSemaphore :=
  ⟨0, 0⟩

/-- `wait()` up to the test of `--_wait < 0`, and whether the caller has to wait. -/
def enter (sem : CELLSemaphore) : Bool × CELLSemaphore :=
  (decide (sem.wait - 1 < 0), { sem with wait := sem.wait - 1 })

/-- `_wakeup > 0`, what a caller in `wait()` waits for. -/
def ready (sem : CELLSemaphore) : Bool :=
  decide (0 < sem.wakeup)

/-- The rest of `wait()` behind the wait. -/
def leave (sem : CELLSemaphore) : CELLSemaphore :=
  { sem with wakeup := sem.wakeup - 1 }

/-- `wakeup()`. -/
def notify (sem : CELLSemaphore) : CELLSemaphore :=
  if sem.wait + 1 ≤ 0 then ⟨sem.wait + 1, sem.wakeup + 1⟩ else ⟨sem.wait + 1, sem.wakeup⟩

end CELLSemaphore

/-! ## Places -/

/-- Where the owner is in `Start` and `Close`. -/
inductive OwnerPC
  /-- In no call. -/
  | idle
  /-- `Start` : the lock. -/
  | startLock
  /-- `Start` : `if (!_isRun)`. -/
  | startTest
  /-- `Start` : `_isRun = true`. -/
  | startSet
  /-- `Start` : the new thread. -/
  | startSpawn
  /-- `Start` : the end of the locked section. -/
  | startUnlock
  /-- `Close` : the lock. -/
  | closeLock
  /-- `Close` : `if (_isRun)`. -/
  | closeTest
  /-- `Close` : `_isRun = false`. -/
  | closeSet
  /-- `Close` : the call of `_sem.wait()`. -/
  | closeWait
  /-- `Close` : in the wait of `_sem.wait()`. -/
  | closeBlocked
  /-- `Close` : the end of the locked section. -/
  | closeUnlock
  deriving DecidableEq, Repr

/-- The callbacks of `OnWork`. -/
inductive Callback
  | onCreate
  | onRun
  | onDestory
  deriving DecidableEq, Repr

/-- Where a worker is in `OnWork`. -/
inductive WorkerPC
  /-- In a callback. -/
  | callback (c : Callback)
  /-- `Exit`, called in a callback : `if (_isRun)`. -/
  | exitTest (c : Callback)
  /-- `Exit` : the lock. -/
  | exitLock (c : Callback)
  /-- `Exit` : `_isRun = false`. -/
  | exitSet (c : Callback)
  /-- `Exit` : the end of the locked section. -/
  | exitUnlock (c : Callback)
  /-- `_sem.wakeup()`. -/
  | wakeup
  /-- `_isRun = false`, the last statement. -/
  | clear
  /-- Behind `OnWork`. -/
  | done
  deriving DecidableEq, Repr

/-- Behind a callback. -/
def Callback.next : Callback → WorkerPC
  | .onCreate => .callback .onRun
  | .onRun => .callback .onDestory
  | .onDestory => .wakeup

namespace WorkerPC

/-- The callbacks are over. -/
def Over : WorkerPC → Prop
  | .wakeup | .clear | .done => True
  | _ => False

instance : DecidablePred Over
  | .wakeup | .clear | .done => isTrue trivial
  | .callback _ | .exitTest _ | .exitLock _ | .exitSet _ | .exitUnlock _ => isFalse not_false

/-- In the locked section of `Exit`. -/
def Locks : WorkerPC → Prop
  | .exitSet _ | .exitUnlock _ => True
  | _ => False

instance : DecidablePred Locks
  | .exitSet _ | .exitUnlock _ => isTrue trivial
  | .callback _ | .exitTest _ | .exitLock _ | .wakeup | .clear | .done => isFalse not_false

/-- The next statement writes `_isRun`. -/
def Writes : WorkerPC → Prop
  | .exitSet _ | .clear => True
  | _ => False

end WorkerPC

/-- In a locked section of `Start` or `Close`. -/
def OwnerPC.Locks : OwnerPC → Prop
  | .idle | .startLock | .closeLock => False
  | _ => True

/-- Who holds the mutex. -/
inductive Holder
  | owner
  | worker (i : ℕ)
  deriving DecidableEq, Repr

/-! ## The class -/

/-- A `CELLThread`, with its owner and its workers in the order of their launch. -/
structure CELLThread where
  /-- `_isRun`. -/
  isRun : Bool
  /-- The holder of `_mutex`. -/
  mutex : Option Holder
  /-- `_sem`. -/
  sem : CELLSemaphore
  owner : OwnerPC
  workers : List WorkerPC
  /-- How many workers had been launched when `Close` last returned. -/
  closed : ℕ
  deriving DecidableEq, Repr

namespace CELLThread

/-- A new thread object. -/
def new : CELLThread :=
  ⟨false, none, .new, .idle, [], 0⟩

/-- The thread with the worker `i` at `w`. -/
def setWorker (s : CELLThread) (i : ℕ) (w : WorkerPC) : CELLThread :=
  { s with workers := s.workers.set i w }

/-- The owner's next step in `Start` or `Close`, if it is not blocked. -/
def ownerStep (s : CELLThread) : Option CELLThread :=
  match s.owner with
  | .idle => none
  | .startLock =>
    if s.mutex = none then some { s with mutex := some .owner, owner := .startTest } else none
  | .startTest => some { s with owner := if s.isRun then .startUnlock else .startSet }
  | .startSet => some { s with isRun := true, owner := .startSpawn }
  | .startSpawn =>
    some { s with workers := s.workers ++ [.callback .onCreate], owner := .startUnlock }
  | .startUnlock => some { s with mutex := none, owner := .idle }
  | .closeLock =>
    if s.mutex = none then some { s with mutex := some .owner, owner := .closeTest } else none
  | .closeTest => some { s with owner := if s.isRun then .closeSet else .closeUnlock }
  | .closeSet => some { s with isRun := false, owner := .closeWait }
  | .closeWait =>
    let (blocks, sem) := s.sem.enter
    some { s with sem, owner := if blocks then .closeBlocked else .closeUnlock }
  | .closeBlocked =>
    if s.sem.ready then some { s with sem := s.sem.leave, owner := .closeUnlock } else none
  | .closeUnlock =>
    some { s with mutex := none, owner := .idle, closed := s.workers.length }

/-- The next step of the worker `i` at a place in `Exit` or behind the callbacks, if it is
not blocked. -/
def stepAt (s : CELLThread) (i : ℕ) : WorkerPC → Option CELLThread
  | .exitTest c => some (s.setWorker i (if s.isRun then .exitLock c else .callback c))
  | .exitLock c =>
    if s.mutex = none then
      some ({ s with mutex := some (.worker i) }.setWorker i (.exitSet c))
    else none
  | .exitSet c => some ({ s with isRun := false }.setWorker i (.exitUnlock c))
  | .exitUnlock c => some ({ s with mutex := none }.setWorker i (.callback c))
  | .wakeup => some ({ s with sem := s.sem.notify }.setWorker i .clear)
  | .clear => some ({ s with isRun := false }.setWorker i .done)
  | .callback _ | .done => none

/-- The next step of the worker `i`. -/
def workerStep (s : CELLThread) (i : ℕ) : Option CELLThread :=
  s.workers[i]?.bind (s.stepAt i)

/-- The callback the worker `i` is in goes on to `f`. -/
def callbackStep (s : CELLThread) (i : ℕ) (f : Callback → WorkerPC) : Option CELLThread :=
  match s.workers[i]? with
  | some (.callback c) => some (s.setWorker i (f c))
  | _ => none

end CELLThread

/-- What can happen to a thread. -/
inductive ThreadAct
  /-- The owner calls `Start`. -/
  | start
  /-- The owner calls `Close`. -/
  | close
  /-- The owner's next step. -/
  | owner
  /-- The callback of the worker `i` calls `Exit`. -/
  | exit (i : ℕ)
  /-- The callback of the worker `i` returns. -/
  | ret (i : ℕ)
  /-- The next step of the worker `i`. -/
  | worker (i : ℕ)
  deriving DecidableEq, Repr

namespace CELLThread

/-- One action. -/
def act (s : CELLThread) : ThreadAct → Option CELLThread
  | .start => if s.owner = .idle then some { s with owner := .startLock } else none
  | .close => if s.owner = .idle then some { s with owner := .closeLock } else none
  | .owner => s.ownerStep
  | .exit i => s.callbackStep i .exitTest
  | .ret i => s.callbackStep i Callback.next
  | .worker i => s.workerStep i

end CELLThread

/-- A thread with its owner and its workers. -/
def thread : Machine CELLThread ThreadAct Empty :=
  .ofStep (· = .new) CELLThread.act

namespace CELLThread

variable {s t : CELLThread} {a : ThreadAct} {i : ℕ}

theorem thread_step : thread.step s a (.ok t) ↔ s.act a = some t :=
  Machine.ofStep_step

theorem thread_run {β : Type*} {as : List ThreadAct} {g : CELLThread → β} {b : β}
    (h : (as.foldlM act s).map g = some b) :
    ∃ tr t, thread.Run s tr t ∧ tr.map Prod.snd = as ∧ g t = b :=
  Machine.Run.of_act_map h

/-! ## What a step does -/

theorem act_worker {w : WorkerPC} (hget : s.workers[i]? = some w) :
    s.act (.worker i) = s.stepAt i w := by
  rw [act, workerStep, hget, Option.bind_some]

theorem act_ret {c : Callback} (hget : s.workers[i]? = some (.callback c)) :
    s.act (.ret i) = some (s.setWorker i c.next) := by
  rw [act, callbackStep, hget]

/-- `t` is `s` after the worker `i` has moved from `w` to `w'`. -/
structure WorkerMoved (s t : CELLThread) (i : ℕ) (w w' : WorkerPC) : Prop where
  get : s.workers[i]? = some w
  workers : t.workers = s.workers.set i w'
  owner : t.owner = s.owner
  closed : t.closed = s.closed
  notDone : w ≠ .done
  stillOver : w.Over → w'.Over
  comes : w' = .wakeup → ¬w.Over
  ends : w = .clear → w' = .done
  isRun : t.isRun = true → s.isRun = true
  clears : s.isRun = true → t.isRun = false → (∃ c, w = .exitSet c) ∨ w = .clear
  exitLock : ∀ c, w' = .exitLock c → s.isRun = true
  sem : t.sem = s.sem ∨ ((w = .wakeup ∧ w' = .clear) ∧ t.sem = s.sem.notify)
  mutex : (t.mutex = s.mutex ∧ (w'.Locks → w.Locks)) ∨
    (s.mutex = none ∧ t.mutex = some (.worker i)) ∨ (w.Locks ∧ ¬w'.Locks ∧ t.mutex = none)

/-- What an action does. -/
inductive Stepped (s : CELLThread) : ThreadAct → CELLThread → Prop
  | start (hidle : s.owner = .idle) : Stepped s .start { s with owner := .startLock }
  | close (hidle : s.owner = .idle) : Stepped s .close { s with owner := .closeLock }
  | owner {t : CELLThread} (hstep : s.ownerStep = some t) : Stepped s .owner t
  | worker {a : ThreadAct} {t : CELLThread} {i : ℕ} {w w' : WorkerPC}
    (ha : (∃ c, w = .callback c) ∨ a = .worker i) (hw : s.WorkerMoved t i w w') :
    Stepped s a t

theorem callbackStep_moved {f : Callback → WorkerPC} (h : s.callbackStep i f = some t)
    (hf : ∀ c, ¬(f c).Locks ∧ ∀ c', f c ≠ .exitLock c') :
    ∃ c w', s.WorkerMoved t i (.callback c) w' := by
  unfold callbackStep at h
  split at h
  · rename_i c hget
    obtain rfl := Option.some.inj h
    refine ⟨_, _, hget, rfl, rfl, rfl, by simp, fun hover => hover.elim, fun _ => not_false,
      by simp, id,
      fun hrun hrun' => absurd (hrun.symm.trans hrun') (by simp),
      fun c' hc' => absurd hc' ((hf c).2 c'), Or.inl rfl, Or.inl ⟨rfl, ?_⟩⟩
    exact fun hlocks => absurd hlocks (hf c).1
  · simp at h

theorem workerStep_moved (h : s.workerStep i = some t) : ∃ w w', s.WorkerMoved t i w w' := by
  obtain ⟨w, hget, h⟩ := Option.bind_eq_some_iff.mp h
  have hkept : ∀ {b b' : Bool}, b' = b → b = true → b' = false →
      (∃ c, w = .exitSet c) ∨ w = .clear := by
    rintro b b' rfl hb hb'
    exact absurd (hb.symm.trans hb') (by simp)
  cases w with
  | callback c => simp [stepAt] at h
  | exitTest c =>
    obtain rfl := Option.some.inj h
    refine ⟨_, _, hget, rfl, rfl, rfl, by simp, fun hover => hover.elim, fun _ => not_false,
      by simp, id,
      hkept rfl, fun c' hc' => ?_, Or.inl rfl, Or.inl ⟨rfl, fun hlocks => ?_⟩⟩
    · by_contra hrun
      simp [hrun] at hc'
    · split at hlocks <;> exact hlocks.elim
  | exitLock c =>
    simp only [stepAt] at h
    split at h
    · rename_i hfree
      obtain rfl := Option.some.inj h
      exact ⟨_, _, hget, rfl, rfl, rfl, by simp, fun hover => hover.elim, fun _ => not_false,
      by simp, id,
        hkept rfl, by simp, Or.inl rfl, Or.inr (Or.inl ⟨hfree, rfl⟩)⟩
    · simp at h
  | exitSet c =>
    obtain rfl := Option.some.inj h
    exact ⟨_, _, hget, rfl, rfl, rfl, by simp, fun hover => hover.elim, fun _ => not_false,
      by simp, by simp [setWorker], fun _ _ => Or.inl ⟨c, rfl⟩, by simp, Or.inl rfl,
      Or.inl ⟨rfl, fun _ => trivial⟩⟩
  | exitUnlock c =>
    obtain rfl := Option.some.inj h
    exact ⟨_, _, hget, rfl, rfl, rfl, by simp, fun hover => hover.elim, fun _ => not_false,
      by simp, id,
      hkept rfl, by simp, Or.inl rfl, Or.inr (Or.inr ⟨trivial, not_false, rfl⟩)⟩
  | wakeup =>
    obtain rfl := Option.some.inj h
    exact ⟨_, _, hget, rfl, rfl, rfl, by simp, fun _ => trivial, by simp, by simp, id, hkept rfl,
      by simp, Or.inr ⟨⟨rfl, rfl⟩, rfl⟩, Or.inl ⟨rfl, fun hlocks => hlocks.elim⟩⟩
  | clear =>
    obtain rfl := Option.some.inj h
    exact ⟨_, _, hget, rfl, rfl, rfl, by simp, fun _ => trivial, by simp, fun _ => rfl,
      by simp [setWorker], fun _ _ => Or.inr rfl, by simp, Or.inl rfl,
      Or.inl ⟨rfl, fun hlocks => hlocks.elim⟩⟩
  | done => simp [stepAt] at h

theorem stepped (h : s.act a = some t) : s.Stepped a t := by
  cases a with
  | start =>
    simp only [act] at h
    split at h
    · obtain rfl := Option.some.inj h
      exact .start ‹_›
    · simp at h
  | close =>
    simp only [act] at h
    split at h
    · obtain rfl := Option.some.inj h
      exact .close ‹_›
    · simp at h
  | owner => exact .owner h
  | exit i =>
    obtain ⟨c, w', hw⟩ := callbackStep_moved h fun c => ⟨not_false, by simp⟩
    exact .worker (Or.inl ⟨c, rfl⟩) hw
  | ret i =>
    obtain ⟨c, w', hw⟩ := callbackStep_moved h fun c => by
      cases c <;> simp [Callback.next, WorkerPC.Locks]
    exact .worker (Or.inl ⟨c, rfl⟩) hw
  | worker i =>
    obtain ⟨w, w', hw⟩ := workerStep_moved h
    exact .worker (Or.inr rfl) hw

/-! ## The mutex and the semaphore -/

/-- The mutex is held in the locked sections, and `_wakeup` counts at most the one wakeup
a blocked `Close` is about to see. -/
structure Sound (s : CELLThread) : Prop where
  owner : s.owner.Locks → s.mutex = some .owner
  worker : ∀ i w, s.workers[i]? = some w → w.Locks → s.mutex = some (.worker i)
  blocked : s.owner = .closeBlocked →
    (s.sem.wait = -1 ∧ s.sem.wakeup = 0) ∨ (0 ≤ s.sem.wait ∧ s.sem.wakeup = 1)
  free : s.owner ≠ .closeBlocked → 0 ≤ s.sem.wait ∧ s.sem.wakeup = 0

theorem Sound.init : Sound .new :=
  ⟨fun h => h.elim, by simp [new], by simp [new], by simp [new, CELLSemaphore.new]⟩

theorem WorkerMoved.get? {w w' : WorkerPC} (h : s.WorkerMoved t i w w') (j : ℕ) :
    t.workers[j]? = if j = i then some w' else s.workers[j]? := by
  have hlt : i < s.workers.length := (List.getElem?_eq_some_iff.mp h.get).1
  rw [h.workers, List.getElem?_set]
  by_cases hj : i = j
  · simp [hj, hj ▸ hlt]
  · simp [hj, Ne.symm hj]

theorem Sound.moved {w w' : WorkerPC} (hs : s.Sound) (h : s.WorkerMoved t i w w') : t.Sound := by
  obtain ⟨howner, hworker, hblocked, hfree⟩ := hs
  refine ⟨fun hl => ?_, fun j v hj hv => ?_, fun hb => ?_, fun hb => ?_⟩
  · rw [h.owner] at hl
    have hm := howner hl
    rcases h.mutex with ⟨hm', -⟩ | ⟨hm', -⟩ | ⟨hw, -, -⟩
    · exact hm'.trans hm
    · simp [hm] at hm'
    · have := hworker i w h.get hw
      simp [hm] at this
  · rw [h.get?] at hj
    split at hj
    · rename_i hji
      subst hji
      obtain rfl := Option.some.inj hj
      rcases h.mutex with ⟨hm', hw⟩ | ⟨-, hm'⟩ | ⟨-, hw, -⟩
      · exact hm'.trans (hworker j w h.get (hw hv))
      · exact hm'
      · exact absurd hv hw
    · rename_i hji
      have hm := hworker j v hj hv
      rcases h.mutex with ⟨hm', -⟩ | ⟨hm', -⟩ | ⟨hw, -, -⟩
      · exact hm'.trans hm
      · simp [hm] at hm'
      · have := hworker i w h.get hw
        simp [hm] at this
        exact absurd this hji
  · rw [h.owner] at hb
    have hold := hblocked hb
    rcases h.sem with hsem | ⟨-, hsem⟩
    · rwa [hsem]
    · rw [hsem, CELLSemaphore.notify]
      split <;> simp only <;> omega
  · rw [h.owner] at hb
    have hold := hfree hb
    rcases h.sem with hsem | ⟨-, hsem⟩
    · rwa [hsem]
    · rw [hsem, CELLSemaphore.notify, if_neg (by omega)]
      exact ⟨by simp only; omega, hold.2⟩

/-- A worker is in a locked section only while the mutex is its own. -/
theorem Sound.not_locks (hs : s.Sound) (hm : ∀ i, s.mutex ≠ some (.worker i)) {w : WorkerPC}
    (hw : w ∈ s.workers) : ¬w.Locks := by
  obtain ⟨i, hi⟩ := List.mem_iff_getElem?.mp hw
  exact fun hl => hm i (hs.worker i w hi hl)

/-- What the owner does to the workers and the mutex. -/
theorem Sound.ownerStep_cases (hs : s.Sound) (h : s.ownerStep = some t) :
    (t.workers = s.workers ∨ t.workers = s.workers ++ [.callback .onCreate]) ∧
    (∀ i, s.mutex ≠ some (.worker i)) ∧ (t.owner.Locks → t.mutex = some .owner) := by
  have howner := hs.owner
  cases ho : s.owner <;>
    simp only [CELLThread.ownerStep, ho, OwnerPC.Locks, forall_const] at h howner
  all_goals grind [OwnerPC.Locks]

theorem Sound.ownerStep (hs : s.Sound) (h : s.ownerStep = some t) : t.Sound := by
  obtain ⟨hworkers, hm, howner⟩ := hs.ownerStep_cases h
  refine ⟨howner, fun i w hi hl => ?_, fun hb => ?_, fun hb => ?_⟩
  · have hmem : w ∈ t.workers := List.mem_of_getElem? hi
    rcases hworkers with hw | hw
    · exact absurd hl (hs.not_locks hm (hw ▸ hmem))
    · rw [hw, List.mem_append, List.mem_singleton] at hmem
      rcases hmem with hmem | rfl
      · exact absurd hl (hs.not_locks hm hmem)
      · exact hl.elim
  · have hfree := hs.free
    cases ho : s.owner <;> simp only [CELLThread.ownerStep, ho] at h hfree
    all_goals grind [CELLSemaphore.enter]
  · have hfree := hs.free
    have hblocked := hs.blocked
    cases ho : s.owner <;> simp only [CELLThread.ownerStep, ho] at h hfree hblocked
    all_goals grind [CELLSemaphore.enter, CELLSemaphore.leave, CELLSemaphore.ready]

theorem Sound.step (hs : s.Sound) (h : s.act a = some t) : t.Sound := by
  cases stepped h with
  | start hidle =>
    exact ⟨fun hl => hl.elim, hs.worker, by simp, fun _ => hs.free (by simp [hidle])⟩
  | close hidle =>
    exact ⟨fun hl => hl.elim, hs.worker, by simp, fun _ => hs.free (by simp [hidle])⟩
  | owner hstep => exact hs.ownerStep hstep
  | worker _ hw => exact hs.moved hw

theorem Sound.run {tr : List (CELLThread × ThreadAct)} {s₀ : CELLThread}
    (hinit : thread.init s₀) (hrun : thread.Run s₀ tr s) : s.Sound := by
  refine hrun.invariant (fun _ _ _ hs hst => hs.step (thread_step.mp hst)) ?_
  obtain rfl : s₀ = new := hinit
  exact .init

end CELLThread

end CellNet
