import CellNet.Thread

/-!
# Closing a thread

What `Close` promises and when it keeps it.

* `exit_deadlock_guard` : `Close` and a worker's `Exit` block each other exactly when
  `Close` clears `_isRun` between the test and the lock of `Exit`, with no wakeup stored
  in the semaphore.
* `close_joins_guard` : `Close` returns before a worker is done with its callbacks only
  because a worker that has called `Exit` is still in them, because the last statement of an
  earlier worker has cleared `_isRun`, or because it takes the wakeup of an earlier one.
* `sessions_isolated_guard` : two workers overlap, or a worker writes `_isRun` after its
  session, only because a worker that has called `Exit`, or has woken `Close`, is not yet
  behind its last statement, or because `Close` takes a wakeup of an earlier one.

Each holds for all runs whose steps meet a condition on the state before the step and, for
the last two, on who has called `Exit` before it. For the first and the last a step that does
not meet the condition can be followed by what it rules out. The last two share `Session` :
that only the last worker has not come to the end of its callbacks, or of `OnWork`.
-/

namespace CellNet

namespace CELLThread

variable {s₀ s t : CELLThread} {a : ThreadAct} {tr : List (CELLThread × ThreadAct)}

/-! ## Deadlock -/

/-- Some worker has passed the test of `Exit` and waits for the mutex. -/
def AtExitLock (s : CELLThread) : Prop :=
  ∃ (i : ℕ) (c : Callback), s.workers[i]? = some (.exitLock c)

/-- `Close` is blocked in `_sem.wait()` and holds the mutex, and a worker is blocked in
`Exit`, where it acquires the mutex. -/
def Deadlocked (s : CELLThread) : Prop :=
  s.owner = .closeBlocked ∧ s.sem.ready = false ∧ s.mutex = some .owner ∧ s.AtExitLock

/-- When `Close` clears `_isRun`, no worker stands between the test of `Exit` and its
lock, or a wakeup is stored. -/
def ClearsApart (s : CELLThread) (a : ThreadAct) : Prop :=
  a = .owner → s.owner = .closeSet → s.AtExitLock → 0 < s.sem.wait

/-- Once `_isRun` is cleared, `Close` does not wait for a worker at the lock of `Exit`. -/
structure ExitClear (s : CELLThread) : Prop where
  isRun : s.owner = .closeWait ∨ s.owner = .closeBlocked → s.isRun = false
  wait : s.owner = .closeWait → s.AtExitLock → 0 < s.sem.wait
  blocked : s.owner = .closeBlocked → ¬s.AtExitLock

/-- No worker gets behind the test of `Exit` once `_isRun` is false. -/
theorem WorkerMoved.atExitLock {i : ℕ} {w w' : WorkerPC} (h : s.WorkerMoved t i w w')
    (hrun : s.isRun = false) (ht : t.AtExitLock) : s.AtExitLock := by
  obtain ⟨j, c, hj⟩ := ht
  rw [h.get?] at hj
  split at hj
  · have := h.exitLock c (Option.some.inj hj)
    simp [hrun] at this
  · exact ⟨j, c, hj⟩

theorem ExitClear.step (hs : s.ExitClear) (hP : s.ClearsApart a) (h : s.act a = some t) :
    t.ExitClear := by
  obtain ⟨hrun, hwait, hblocked⟩ := hs
  cases stepped h with
  | start hidle => exact ⟨by simp, by simp, by simp⟩
  | close hidle => exact ⟨by simp, by simp, by simp⟩
  | owner hstep =>
    have hset : s.owner = .closeSet → s.AtExitLock → 0 < s.sem.wait := hP rfl
    refine ⟨?_, ?_, ?_⟩ <;> cases ho : s.owner <;>
      simp only [ownerStep, ho] at hstep hrun hwait hblocked hset
    all_goals grind [CELLSemaphore.enter, AtExitLock]
  | worker _ hw =>
    have hlt : s.sem.wait ≤ t.sem.wait := by
      rcases hw.sem with hsem | ⟨-, hsem⟩
      · exact Int.le_of_eq (congrArg CELLSemaphore.wait hsem.symm)
      · rw [hsem, CELLSemaphore.notify]
        split <;> simp only <;> omega
    refine ⟨fun ho => ?_, fun ho hat => ?_, fun ho hat => ?_⟩
    · rw [hw.owner] at ho
      by_contra ht
      exact absurd (hw.isRun (by simpa using ht)) (by simp [hrun ho])
    · rw [hw.owner] at ho
      have := hwait ho (hw.atExitLock (hrun (Or.inl ho)) hat)
      omega
    · rw [hw.owner] at ho
      exact hblocked ho (hw.atExitLock (hrun (Or.inr ho)) hat)

theorem ExitClear.not_deadlocked (hs : s.ExitClear) : ¬s.Deadlocked :=
  fun hd => hs.blocked hd.1 hd.2.2.2

/-- A `Close` that clears `_isRun` too early is blocked at its next step. -/
theorem Sound.deadlocked_of_not_clearsApart (hs : s.Sound) (hP : ¬s.ClearsApart a)
    (h : s.act a = some t) : ∃ u, t.act .owner = some u ∧ u.Deadlocked := by
  simp only [ClearsApart, Classical.not_imp] at hP
  obtain ⟨rfl, howner, hat, hwait⟩ := hP
  have hmutex := hs.owner (by rw [howner]; trivial)
  have hwakeup := (hs.free (by simp [howner])).2
  simp only [act, CELLThread.ownerStep, howner, Option.some.injEq] at h
  subst h
  refine ⟨_, rfl, if_pos (decide_eq_true ?_), decide_eq_false ?_, hmutex, hat⟩
  · simp only
    omega
  · simp only
    omega

end CELLThread

/-- When `Close` and `Exit` never block each other. In a run in which `Close` clears
`_isRun` only while no worker stands between the test of `Exit` and its lock, or a
wakeup is stored, no state is deadlocked; a `Close` that clears it otherwise is
deadlocked after its next step. -/
theorem exit_deadlock_guard {s₀ s : CELLThread} {tr : List (CELLThread × ThreadAct)}
    (hinit : thread.init s₀) (hrun : thread.Run s₀ tr s) :
    ((∀ x ∈ tr, x.1.ClearsApart x.2) → (∀ x ∈ tr, ¬x.1.Deadlocked) ∧ ¬s.Deadlocked) ∧
    ∀ a t, thread.step s a (.ok t) → ¬s.ClearsApart a →
      ∃ u, thread.step t .owner (.ok u) ∧ u.Deadlocked := by
  have hs₀ : s₀.ExitClear := by
    obtain rfl : s₀ = .new := hinit
    exact ⟨by simp [CELLThread.new], by simp [CELLThread.new], by simp [CELLThread.new]⟩
  have hstep : ∀ s a t, s.ExitClear → s.ClearsApart a → thread.step s a (.ok t) → t.ExitClear :=
    fun _ _ _ hs hP hst => hs.step hP (CELLThread.thread_step.mp hst)
  refine ⟨fun hP => ⟨?_, ?_⟩, fun a t hst hP => ?_⟩
  · exact hrun.forall_of_steps hstep (fun _ _ _ hs _ _ => hs.not_deadlocked) hP hs₀
  · exact (hrun.invariant_of_steps hstep hP hs₀).not_deadlocked
  · obtain ⟨u, hu, hd⟩ := (CELLThread.Sound.run hinit hrun).deadlocked_of_not_clearsApart hP
      (CELLThread.thread_step.mp hst)
    exact ⟨u, CELLThread.thread_step.mpr hu, hd⟩

/-- A worker calls `Exit` and passes the test, then the owner calls `Close`. -/
theorem exit_deadlock : ∃ s₀ tr s, thread.init s₀ ∧ thread.Run s₀ tr s ∧ s.Deadlocked := by
  let acts : List ThreadAct := [.start, .owner, .owner, .owner, .owner, .owner, .ret 0, .exit 0,
    .worker 0, .close, .owner, .owner, .owner, .owner]
  have heval : (acts.foldlM CELLThread.act .new).map (fun s =>
      (s.owner, s.sem.ready, s.mutex, s.workers)) =
        some (.closeBlocked, false, some .owner, [.exitLock .onRun]) := by
    decide
  obtain ⟨tr, s, hrun, -, hstate⟩ := CELLThread.thread_run heval
  simp only [Prod.mk.injEq] at hstate
  exact ⟨_, tr, s, rfl, hrun, hstate.1, hstate.2.1, hstate.2.2.1, 0, .onRun, by simp [hstate]⟩

/-- `Close` is not free of deadlocks. -/
theorem not_exit_deadlock_free : ¬∀ (s₀ s : CELLThread) (tr : List (CELLThread × ThreadAct)),
    thread.init s₀ → thread.Run s₀ tr s → ¬s.Deadlocked := by
  intro hall
  obtain ⟨s₀, tr, s, hinit, hrun, hd⟩ := exit_deadlock
  exact hall s₀ s tr hinit hrun hd

/-- Some `Close` of that run clears `_isRun` between the test and the lock of `Exit`. -/
theorem exit_deadlock_guard_race : ∃ s₀ tr s, thread.init s₀ ∧ thread.Run s₀ tr s ∧
    ¬∀ x ∈ tr, x.1.ClearsApart x.2 := by
  obtain ⟨s₀, tr, s, hinit, hrun, hd⟩ := exit_deadlock
  exact ⟨s₀, tr, s, hinit, hrun, fun hP => ((exit_deadlock_guard hinit hrun).1 hP).2 hd⟩

/-- `wakeup()` has been called. -/
def WorkerPC.Woke (w : WorkerPC) : Prop :=
  w = .clear ∨ w = .done

/-- `Close` is about to clear `_isRun`, or to wait. -/
def OwnerPC.Stops : OwnerPC → Prop
  | .closeSet | .closeWait | .closeBlocked => True
  | _ => False

namespace CELLThread

variable {s₀ s t : CELLThread} {a : ThreadAct} {i : ℕ} {tr : List (CELLThread × ThreadAct)}

/-! ## Who clears the flag -/

/-- The worker `i` has cleared `_isRun` in `Exit`. -/
def Exited (tr : List (CELLThread × ThreadAct)) (i : ℕ) : Prop :=
  ∃ x ∈ tr, x.2 = .worker i ∧ ∃ c, x.1.workers[i]? = some (.exitSet c)

theorem Exited.snoc (h : Exited tr i) (x : CELLThread × ThreadAct) : Exited (tr ++ [x]) i := by
  obtain ⟨y, hy, hexit⟩ := h
  exact ⟨y, List.mem_append_left _ hy, hexit⟩

/-- `Close` or `Start` finds `_isRun` false. -/
def FindsFalse (s : CELLThread) (a : ThreadAct) : Prop :=
  a = .owner ∧ (s.owner = .closeTest ∨ s.owner = .startTest) ∧ s.isRun = false

/-- `Close` decides to return : it finds `_isRun` false, finds a stored wakeup, or is woken. -/
def Leaves (s : CELLThread) (a : ThreadAct) : Prop :=
  a = .owner ∧ ((s.owner = .closeTest ∧ s.isRun = false) ∨
    (s.owner = .closeWait ∧ 0 < s.sem.wait) ∨ s.owner = .closeBlocked)

/-- `Close` returns. -/
def Returns (s : CELLThread) (a : ThreadAct) : Prop :=
  a = .owner ∧ s.owner = .closeUnlock

/-- `Start` decides to launch a worker. -/
def Restarts (s : CELLThread) (a : ThreadAct) : Prop :=
  a = .owner ∧ s.owner = .startTest ∧ s.isRun = false

/-- The callbacks of every worker are over. -/
def AllOver (s : CELLThread) : Prop :=
  ∀ w ∈ s.workers, w.Over

/-- Every worker has left `OnWork`. -/
def AllDone (s : CELLThread) : Prop :=
  ∀ w ∈ s.workers, w = .done

theorem WorkerMoved.forall {w w' : WorkerPC} (h : s.WorkerMoved t i w w') {R : WorkerPC → Prop}
    (hR : R w → R w') (hs : ∀ v ∈ s.workers, R v) : ∀ v ∈ t.workers, R v := by
  intro v hv
  rw [h.workers] at hv
  rcases List.mem_or_eq_of_mem_set hv with hv | rfl
  · exact hs v hv
  · exact hR (hs w (List.mem_of_getElem? h.get))

theorem act_of_leaves (hl : s.Leaves a) (h : s.act a = some t) :
    t.owner = .closeUnlock ∧ t.workers = s.workers := by
  obtain ⟨rfl, hl⟩ := hl
  rcases hl with ⟨ho, hrun⟩ | ⟨ho, hwait⟩ | ho <;> simp only [act, ownerStep, ho] at h
  all_goals grind [CELLSemaphore.enter]

/-- The last step of `Close`. -/
theorem act_of_closeUnlock (ho : s.owner = .closeUnlock) :
    s.act .owner = some { s with mutex := none, owner := .idle, closed := s.workers.length } := by
  rw [act, ownerStep, ho]

/-- Where the owner gets out of the wait of `Close`, there is a wakeup. -/
theorem ready_of_woken (ho : s.owner = .closeBlocked) (h : s.ownerStep = some t) :
    0 < s.sem.wakeup := by
  simp only [ownerStep, ho] at h
  split at h
  · rename_i hready
    exact of_decide_eq_true hready
  · cases h

/-- How `Close` comes to its wait. -/
theorem ownerStep_closeBlocked (h : s.ownerStep = some t) (ht : t.owner = .closeBlocked) :
    s.owner = .closeWait ∧ t.workers = s.workers ∧ t.sem.wakeup = s.sem.wakeup := by
  cases ho : s.owner <;> simp only [ownerStep, ho] at h
  all_goals grind [CELLSemaphore.enter]

/-! ## The workers that are not done

`R` is what a worker has come to, the end of its callbacks or that of `OnWork`. -/

/-- Only the last worker can be in front of `R`, and none is where `Close` returns or `Start`
launches one. -/
structure Session (R : WorkerPC → Prop) (tr : List (CELLThread × ThreadAct)) (s : CELLThread) :
    Prop where
  last : ∀ i w, s.workers[i]? = some w → ¬R w → i + 1 = s.workers.length
  alone : s.owner = .startSet ∨ s.owner = .startSpawn ∨ s.owner = .closeUnlock →
    ∀ w ∈ s.workers, R w
  spawn : s.owner = .startSpawn → s.isRun = true
  /-- Where `Close` is not about to wait, a worker that has not come to `R` has cleared `_isRun`
  itself. -/
  cleared : s.isRun = false → ¬s.owner.Stops →
    ∀ i w, s.workers[i]? = some w → R w ∨ Exited tr i

namespace Session

variable {R : WorkerPC → Prop}

theorem init : Session R [] .new :=
  ⟨by simp [new], by simp [new], by simp [new], by simp [new]⟩

/-- A step that moves no worker and launches none. -/
theorem keeps (hs : Session R tr s) (x : CELLThread × ThreadAct) (hworkers : t.workers = s.workers)
    (halone : t.owner = .startSet ∨ t.owner = .startSpawn ∨ t.owner = .closeUnlock →
      ∀ w ∈ s.workers, R w)
    (hspawn : t.owner = .startSpawn → t.isRun = true)
    (hcleared : t.isRun = false → ¬t.owner.Stops →
      (∀ w ∈ s.workers, R w) ∨ s.isRun = false ∧ ¬s.owner.Stops) :
    Session R (tr ++ [x]) t := by
  refine ⟨fun i w hi => ?_, fun ho => ?_, hspawn, fun hrun hne i w hi => ?_⟩
  · rw [hworkers] at hi ⊢
    exact hs.last i w hi
  · rw [hworkers]
    exact halone ho
  · rw [hworkers] at hi
    rcases hcleared hrun hne with hall | ⟨hrun', hne'⟩
    · exact Or.inl (hall w (List.mem_of_getElem? hi))
    · exact (hs.cleared hrun' hne' i w hi).imp_right (·.snoc _)

/-- `Start` launches a worker where all earlier ones have come to `R`. -/
theorem launches (hs : Session R tr s) (x : CELLThread × ThreadAct) (ho : s.owner = .startSpawn) :
    Session R (tr ++ [x]) { s with
      workers := s.workers ++ [.callback .onCreate], owner := .startUnlock } := by
  have hall := hs.alone (Or.inr (Or.inl ho))
  refine ⟨fun i w hi hw => ?_, by simp, by simp, fun hrun => ?_⟩
  · dsimp only at hi ⊢
    rw [List.length_append, List.length_singleton]
    by_cases hlt : i < s.workers.length
    · rw [List.getElem?_append_left hlt] at hi
      exact absurd (hall w (List.mem_of_getElem? hi)) hw
    · have hlt' := (List.getElem?_eq_some_iff.mp hi).1
      rw [List.length_append, List.length_singleton] at hlt'
      omega
  · exact absurd ((hs.spawn ho).symm.trans hrun) (by simp)

/-- A step of the owner, which goes on to return or to launch only where all have come to
`R`. -/
theorem ownerStep (hs : Session R tr s) (h : s.ownerStep = some t)
    (hall : s.Leaves .owner ∨ s.Restarts .owner → ∀ w ∈ s.workers, R w) :
    Session R (tr ++ [(s, .owner)]) t := by
  cases ho : s.owner <;> simp only [CELLThread.ownerStep, ho] at h
  case idle => cases h
  case startLock =>
    split at h
    · obtain rfl := Option.some.inj h
      exact hs.keeps _ rfl (by simp) (by simp)
        (fun hrun _ => Or.inr ⟨hrun, by simp [ho, OwnerPC.Stops]⟩)
    · cases h
  case startTest =>
    obtain rfl := Option.some.inj h
    by_cases hrun : s.isRun = true
    · exact hs.keeps _ rfl (by simp [hrun]) (by simp [hrun])
        (fun hrun' => absurd (hrun.symm.trans hrun') (by simp))
    · have hall := hall (Or.inr ⟨rfl, ho, Bool.eq_false_iff.mpr hrun⟩)
      exact hs.keeps _ rfl (fun _ => hall) (by simp [hrun]) (fun _ _ => Or.inl hall)
  case startSet =>
    obtain rfl := Option.some.inj h
    exact hs.keeps _ rfl (fun _ => hs.alone (Or.inl ho)) (fun _ => rfl) (by simp)
  case startSpawn =>
    obtain rfl := Option.some.inj h
    exact hs.launches _ ho
  case startUnlock =>
    obtain rfl := Option.some.inj h
    exact hs.keeps _ rfl (by simp) (by simp)
      (fun hrun _ => Or.inr ⟨hrun, by simp [ho, OwnerPC.Stops]⟩)
  case closeLock =>
    split at h
    · obtain rfl := Option.some.inj h
      exact hs.keeps _ rfl (by simp) (by simp)
        (fun hrun _ => Or.inr ⟨hrun, by simp [ho, OwnerPC.Stops]⟩)
    · cases h
  case closeTest =>
    obtain rfl := Option.some.inj h
    by_cases hrun : s.isRun = true
    · exact hs.keeps _ rfl (by simp [hrun]) (by simp [hrun])
        (fun hrun' => absurd (hrun.symm.trans hrun') (by simp))
    · have hall := hall (Or.inl ⟨rfl, Or.inl ⟨ho, Bool.eq_false_iff.mpr hrun⟩⟩)
      exact hs.keeps _ rfl (fun _ => hall) (by simp [hrun]) (fun _ _ => Or.inl hall)
  case closeSet =>
    obtain rfl := Option.some.inj h
    exact hs.keeps _ rfl (by simp) (by simp) (by simp [OwnerPC.Stops])
  case closeWait =>
    obtain rfl := Option.some.inj h
    by_cases hwait : 0 < s.sem.wait
    · have hall := hall (Or.inl ⟨rfl, Or.inr (Or.inl ⟨ho, hwait⟩)⟩)
      have hblocks : s.sem.enter.1 = false := decide_eq_false (by omega)
      exact hs.keeps _ rfl (fun _ => hall) (by simp [hblocks]) (fun _ _ => Or.inl hall)
    · have hblocks : s.sem.enter.1 = true := decide_eq_true (by omega)
      exact hs.keeps _ rfl (by simp [hblocks]) (by simp [hblocks])
        (by simp [hblocks, OwnerPC.Stops])
  case closeBlocked =>
    have hall := hall (Or.inl ⟨rfl, Or.inr (Or.inr ho)⟩)
    split at h
    · obtain rfl := Option.some.inj h
      exact hs.keeps _ rfl (fun _ => hall) (by simp) (fun _ _ => Or.inl hall)
    · cases h
  case closeUnlock =>
    obtain rfl := Option.some.inj h
    exact hs.keeps _ rfl (by simp) (by simp) (fun _ _ => Or.inl (hs.alone (Or.inr (Or.inr ho))))

/-- The worker that has cleared the flag has done so in `Exit`, or all have come to `R`. -/
theorem cleared_moved {w w' : WorkerPC} (hs : Session R tr s)
    (ha : (∃ c, w = .callback c) ∨ a = .worker i) (hw : s.WorkerMoved t i w w')
    (hend : w = .clear → R w') (hrun : s.isRun = true) (hrun' : t.isRun = false)
    (hothers : R w → ∀ j v, j ≠ i → s.workers[j]? = some v → R v) (j : ℕ) {v : WorkerPC}
    (hj : t.workers[j]? = some v) : R v ∨ Exited (tr ++ [(s, a)]) j := by
  have hclears := hw.clears hrun hrun'
  have hi : a = .worker i := by
    refine ha.resolve_left ?_
    rintro ⟨c, rfl⟩
    rcases hclears with ⟨c', hc'⟩ | hc' <;> cases hc'
  rw [hw.get?] at hj
  by_cases hji : j = i
  · subst hji
    rw [if_pos rfl] at hj
    obtain rfl := Option.some.inj hj
    rcases hclears with ⟨c, rfl⟩ | hclear
    · exact Or.inr ⟨(s, a), by simp, hi, c, hw.get⟩
    · exact Or.inl (hend hclear)
  · rw [if_neg hji] at hj
    refine Or.inl (by_contra fun hv => ?_)
    by_cases hRw : R w
    · exact hv (hothers hRw j v hji hj)
    · have := hs.last i w hw.get hRw
      have := hs.last j v hj hv
      omega

/-- A step of a worker. Where one that has come to `R` already clears the flag, so have the
others, or `Close` clears it next. -/
theorem moved {w w' : WorkerPC} (hs : Session R tr s)
    (ha : (∃ c, w = .callback c) ∨ a = .worker i) (hw : s.WorkerMoved t i w w')
    (hR : R w → R w') (hend : w = .clear → R w')
    (hothers : R w → s.isRun = true → t.isRun = false → s.owner ≠ .startSpawn ∧
      (s.owner ≠ .closeSet → ∀ j v, j ≠ i → s.workers[j]? = some v → R v)) :
    Session R (tr ++ [(s, a)]) t := by
  have hlength : t.workers.length = s.workers.length := by rw [hw.workers, List.length_set]
  refine ⟨fun j v hj hv => ?_, fun ho => hw.forall hR (hs.alone (hw.owner ▸ ho)), fun ho => ?_,
    fun hrun hne j v hj => ?_⟩
  · rw [hlength]
    rw [hw.get?] at hj
    split at hj
    · rename_i hji
      obtain rfl := Option.some.inj hj
      exact hji ▸ hs.last i w hw.get fun hRw => hv (hR hRw)
    · exact hs.last j v hj hv
  · rw [hw.owner] at ho
    by_contra hne
    have hRw := hs.alone (Or.inr (Or.inl ho)) w (List.mem_of_getElem? hw.get)
    exact (hothers hRw (hs.spawn ho) (Bool.eq_false_iff.mpr hne)).1 ho
  · rw [hw.owner] at hne
    cases hs' : s.isRun with
    | true =>
      have hset : s.owner ≠ .closeSet := fun ho => hne (ho ▸ trivial)
      exact hs.cleared_moved ha hw hend hs' hrun (fun hRw => (hothers hRw hs' hrun).2 hset) j hj
    | false =>
      have hold := hs.cleared hs' hne
      rw [hw.get?] at hj
      split at hj
      · rename_i hji
        obtain rfl := Option.some.inj hj
        exact hji ▸ (hold i w hw.get).imp hR (·.snoc _)
      · exact (hold j v hj).imp_right (·.snoc _)

/-- A call of `Start` or `Close`. -/
theorem called (hs : Session R tr s) (x : CELLThread × ThreadAct) (hidle : s.owner = .idle)
    {o : OwnerPC} (ho : o = .startLock ∨ o = .closeLock) :
    Session R (tr ++ [x]) { s with owner := o } := by
  refine hs.keeps _ rfl ?_ ?_ fun hrun _ => Or.inr ⟨hrun, by simp [hidle, OwnerPC.Stops]⟩
  · rcases ho with rfl | rfl <;> simp
  · rcases ho with rfl | rfl <;> simp

end Session

/-! ## Join -/

/-- What `Close` relies on. -/
structure EndsInTime (tr : List (CELLThread × ThreadAct)) (s : CELLThread) (a : ThreadAct) :
    Prop where
  /-- Where `Close` or `Start` finds `_isRun` false, the callbacks of the workers that have
  cleared it in `Exit` are over. -/
  exits : s.FindsFalse a → ∀ i w, Exited tr i → s.workers[i]? = some w → w.Over
  /-- The last statement of a worker clears `_isRun` only if no later worker is in its
  callbacks, or about to be launched, or where `Close` clears it next. -/
  clears : ∀ i, a = .worker i → s.workers[i]? = some .clear → s.isRun = true →
    s.owner = .closeSet ∨ s.owner ≠ .startSpawn ∧ ∀ j w, i < j → s.workers[j]? = some w → w.Over
  /-- Where `Close` calls `_sem.wait()` and callbacks run, no wakeup is stored, and no worker is
  about to give one. -/
  waits : a = .owner → s.owner = .closeWait → ¬s.AllOver → s.sem.wait ≤ 0 ∧ .wakeup ∉ s.workers

/-- Only the last worker can be in its callbacks, and none when `Close` returns. -/
structure Joined (tr : List (CELLThread × ThreadAct)) (s : CELLThread) : Prop
    extends Session WorkerPC.Over tr s where
  sound : s.Sound
  /-- `Close` is woken only when the callbacks are over. -/
  blocked : s.owner = .closeBlocked → s.AllOver ∨ s.sem.wakeup = 0 ∧ .wakeup ∉ s.workers

theorem Joined.init : Joined [] .new :=
  ⟨.init, .init, by simp [new]⟩

/-- Where `Close` or `Start` goes on, the callbacks are over. -/
theorem Joined.allOver (hs : Joined tr s) (hP : EndsInTime tr s .owner)
    (h : s.ownerStep = some t) (hl : s.Leaves .owner ∨ s.Restarts .owner) : s.AllOver := by
  have hfalse : s.FindsFalse .owner → s.AllOver := by
    intro hf w hw
    obtain ⟨i, hi⟩ := List.mem_iff_getElem?.mp hw
    have hne : ¬s.owner.Stops := by
      rcases hf.2.1 with ho | ho <;> simp [ho, OwnerPC.Stops]
    rcases hs.cleared hf.2.2 hne i w hi with hover | hexit
    · exact hover
    · exact hP.exits hf i w hexit hi
  rcases hl with ⟨-, ⟨ho, hrun⟩ | ⟨ho, hwait⟩ | ho⟩ | ⟨-, ho, hrun⟩
  · exact hfalse ⟨rfl, Or.inl ho, hrun⟩
  · by_contra hover
    have := (hP.waits rfl ho hover).1
    omega
  · refine (hs.blocked ho).resolve_right fun hnone => ?_
    have := ready_of_woken ho h
    omega
  · exact hfalse ⟨rfl, Or.inr ho, hrun⟩

theorem Joined.ownerStep (hs : Joined tr s) (hP : EndsInTime tr s .owner)
    (h : s.ownerStep = some t) : Joined (tr ++ [(s, .owner)]) t := by
  refine ⟨hs.toSession.ownerStep h (hs.allOver hP h), hs.sound.ownerStep h, fun ht => ?_⟩
  obtain ⟨ho, hworkers, hwakeup⟩ := ownerStep_closeBlocked h ht
  rw [AllOver, hworkers, hwakeup]
  by_cases hover : s.AllOver
  · exact Or.inl hover
  · exact Or.inr ⟨(hs.sound.free (by simp [ho])).2, (hP.waits rfl ho hover).2⟩

/-- No worker but the last can wake `Close`. -/
theorem Joined.blocked_moved {w w' : WorkerPC} (hs : Joined tr s) (hw : s.WorkerMoved t i w w')
    (ho : s.owner = .closeBlocked) : t.AllOver ∨ t.sem.wakeup = 0 ∧ .wakeup ∉ t.workers := by
  rcases hs.blocked ho with hover | ⟨hwakeup, hnone⟩
  · exact Or.inl (hw.forall hw.stillOver hover)
  have hsem : t.sem = s.sem := by
    refine hw.sem.resolve_right ?_
    rintro ⟨⟨rfl, -⟩, -⟩
    exact hnone (List.mem_of_getElem? hw.get)
  by_cases hw' : w' = .wakeup
  · -- the worker that comes to its wakeup was the last in its callbacks
    refine Or.inl fun v hv => by_contra fun hvover => ?_
    obtain ⟨j, hj⟩ := List.mem_iff_getElem?.mp hv
    have hlast := hs.last i w hw.get (hw.comes hw')
    rw [hw.get?] at hj
    split at hj
    · obtain rfl := Option.some.inj hj
      exact hvover (hw' ▸ trivial)
    · have := hs.last j v hj hvover
      omega
  · refine Or.inr ⟨hsem ▸ hwakeup, fun hmem => ?_⟩
    rw [hw.workers] at hmem
    rcases List.mem_or_eq_of_mem_set hmem with hmem | heq
    · exact hnone hmem
    · exact hw' heq.symm

theorem Joined.moved {w w' : WorkerPC} (hs : Joined tr s) (hP : EndsInTime tr s a)
    (ha : (∃ c, w = .callback c) ∨ a = .worker i) (hw : s.WorkerMoved t i w w') :
    Joined (tr ++ [(s, a)]) t := by
  refine ⟨hs.toSession.moved ha hw hw.stillOver (fun hclear => hw.stillOver (hclear ▸ trivial)) ?_,
    hs.sound.moved hw, fun ho => hs.blocked_moved hw (hw.owner ▸ ho)⟩
  intro hover hrun hrun'
  rcases hw.clears hrun hrun' with ⟨c, rfl⟩ | rfl
  · exact hover.elim
  · have hi : a = .worker i := ha.resolve_left fun ⟨c, hc⟩ => by cases hc
    have hlt : ∀ j v, j < i → s.workers[j]? = some v → v.Over := by
      intro j v hji hj
      have := (List.getElem?_eq_some_iff.mp hw.get).1
      by_contra hv
      have := hs.last j v hj hv
      omega
    rcases hP.clears i hi hw.get hrun with hset | ⟨hspawn, hafter⟩
    · exact ⟨by simp [hset], fun hne => absurd hset hne⟩
    · refine ⟨hspawn, fun _ j v hji hj => ?_⟩
      rcases Nat.lt_or_gt_of_ne hji with hlt' | hgt
      · exact hlt j v hlt' hj
      · exact hafter j v hgt hj

theorem Joined.step (hs : Joined tr s) (hP : EndsInTime tr s a) (h : s.act a = some t) :
    Joined (tr ++ [(s, a)]) t := by
  have hsound := hs.sound.step h
  cases stepped h with
  | start hidle => exact ⟨hs.toSession.called _ hidle (Or.inl rfl), hsound, by simp⟩
  | close hidle => exact ⟨hs.toSession.called _ hidle (Or.inr rfl), hsound, by simp⟩
  | owner hstep => exact hs.ownerStep hP hstep
  | worker ha hw => exact hs.moved hP ha hw

end CELLThread

/-- When `Close` is a join. In a run in which no worker that has cleared `_isRun` in `Exit` is
still in its callbacks where `Close` or `Start` finds it false, no worker clears the flag of a
later one with its last statement, and `Close` takes no wakeup while callbacks run, the
callbacks of every worker are over when `Close` is woken, and whenever it returns. -/
theorem close_joins_guard {s₀ s : CELLThread} {tr : List (CELLThread × ThreadAct)}
    (hinit : thread.init s₀) (hrun : thread.Run s₀ tr s)
    (hP : Machine.Along CELLThread.EndsInTime tr) :
    ∀ x ∈ tr, (x.2 = .owner → x.1.owner = .closeBlocked → x.1.AllOver) ∧
      (x.1.Returns x.2 → x.1.AllOver) := by
  have hs₀ : CELLThread.Joined [] s₀ := by
    obtain rfl : s₀ = .new := hinit
    exact .init
  refine (hrun.forall_of_along (B := fun s a => (a = .owner → s.owner = .closeBlocked →
    s.AllOver) ∧ (s.Returns a → s.AllOver)) (fun _ _ _ _ hs hP hst =>
      CELLThread.Joined.step hs hP (CELLThread.thread_step.mp hst)) ?_ hP hs₀).2
  intro tr s a t hs _ hst
  refine ⟨?_, fun hret => hs.alone (Or.inr (Or.inr hret.2))⟩
  rintro rfl ho
  refine (hs.blocked ho).resolve_right fun hnone => ?_
  have hready : s.sem.ready = false := by simp [CELLSemaphore.ready, hnone.1]
  have hact := CELLThread.thread_step.mp hst
  rw [CELLThread.act, CELLThread.ownerStep, ho] at hact
  simp [hready] at hact

/-- A worker calls `Exit` and is still in its last callback when `Close` returns. -/
theorem close_early : ∃ s₀ tr s, thread.init s₀ ∧ thread.Run s₀ tr s ∧
    ∃ x ∈ tr, x.1.Returns x.2 ∧ ¬x.1.AllOver := by
  let acts : List ThreadAct := [.start, .owner, .owner, .owner, .owner, .owner, .ret 0, .exit 0,
    .worker 0, .worker 0, .worker 0, .worker 0, .ret 0, .close, .owner, .owner]
  have heval : ((acts.foldlM CELLThread.act .new).map fun s => (s.owner, s.workers)) =
      some (.closeUnlock, [.callback .onDestory]) := by
    decide
  obtain ⟨tr, s, hrun, -, hstate⟩ := CELLThread.thread_run heval
  simp only [Prod.mk.injEq] at hstate
  have hret := CELLThread.thread_step.mpr (CELLThread.act_of_closeUnlock hstate.1)
  refine ⟨_, _, _, rfl, hrun.snoc hret, (s, .owner), by simp, ⟨rfl, hstate.1⟩, ?_⟩
  simp [CELLThread.AllOver, hstate.2, WorkerPC.Over]

/-- `Close` is not a join. -/
theorem not_close_joins : ¬∀ (s₀ s : CELLThread) (tr : List (CELLThread × ThreadAct)),
    thread.init s₀ → thread.Run s₀ tr s → ∀ x ∈ tr, x.1.Returns x.2 → x.1.AllOver := by
  intro hall
  obtain ⟨s₀, tr, s, hinit, hrun, x, hx, hret, hover⟩ := close_early
  exact hover (hall s₀ s tr hinit hrun x hx hret)

namespace CELLThread

variable {i : ℕ} {tr : List (CELLThread × ThreadAct)}

/-- No worker is in the locked section of `Exit`, or clears `_isRun` with its last statement,
`Close` finds no wakeup, and is woken only when the worker has left `OnWork`. -/
def Orderly (s : CELLThread) (a : ThreadAct) : Prop :=
  (∀ w ∈ s.workers, ¬w.Locks) ∧ (.clear ∈ s.workers → s.isRun = false) ∧
    (s.owner = .closeWait → s.sem.wait ≤ 0 ∧ .wakeup ∉ s.workers) ∧
    (a = .owner → s.owner = .closeBlocked → .clear ∉ s.workers)

instance (s : CELLThread) (a : ThreadAct) : Decidable (s.Orderly a) :=
  inferInstanceAs (Decidable (_ ∧ _ ∧ _ ∧ _))

theorem not_exited_of_orderly (h : ∀ x ∈ tr, x.1.Orderly x.2) : ¬Exited tr i := by
  rintro ⟨x, hx, -, c, hc⟩
  exact absurd trivial ((h x hx).1 _ (List.mem_of_getElem? hc))

theorem endsInTime_of_orderly (h : ∀ x ∈ tr, x.1.Orderly x.2) : Machine.Along EndsInTime tr := by
  intro pre x post htr
  have hx : x.1.Orderly x.2 := h x (by simp [htr])
  refine ⟨fun _ i _ hexit => ?_, fun i _ hi hrun => ?_, fun _ ho _ => hx.2.2.1 ho⟩
  · exact absurd hexit (not_exited_of_orderly fun y hy => h y (by simp [htr, hy]))
  · exact absurd ((hx.2.1 (List.mem_of_getElem? hi)).symm.trans hrun) Bool.false_ne_true

/-- A run with two sessions that `Close` ends. -/
theorem orderly_twice : ∃ tr s, thread.Run .new tr s ∧ s.closed = 2 ∧
    ∀ x ∈ tr, x.1.Orderly x.2 := by
  let session : ℕ → List ThreadAct := fun i => .start :: List.replicate 5 .owner ++
    [.ret i, .close] ++ List.replicate 4 .owner ++ [.ret i, .ret i, .worker i, .worker i] ++
    List.replicate 2 .owner
  let next? : CELLThread → ThreadAct → Option CELLThread := fun s a =>
    if s.Orderly a then s.act a else none
  have heval : ((session 0 ++ session 1).foldlM next? .new).map closed = some 2 := by
    decide +kernel
  have hstep : ∀ s a t, next? s a = some t → thread.step s a (.ok t) ∧ s.Orderly a := by
    intro s a t hnext
    dsimp only [next?] at hnext
    split at hnext
    · exact ⟨thread_step.mpr hnext, ‹_›⟩
    · cases hnext
  obtain ⟨tr, s, hrun, -, horderly, hclosed⟩ := Machine.Run.of_foldlM_steps hstep heval
  exact ⟨tr, s, hrun, hclosed, horderly⟩

end CELLThread

/-- In a run with two sessions `Close` returns twice, and the callbacks are over each time. -/
theorem close_joins_guard_twice : ∃ tr s, thread.Run .new tr s ∧ s.closed = 2 ∧
    ∀ x ∈ tr, x.1.Returns x.2 → x.1.AllOver := by
  obtain ⟨tr, s, hrun, hclosed, horderly⟩ := CELLThread.orderly_twice
  exact ⟨tr, s, hrun, hclosed, fun x hx =>
    (close_joins_guard rfl hrun (CELLThread.endsInTime_of_orderly horderly) x hx).2⟩

namespace CELLThread

variable {s₀ s t u : CELLThread} {a : ThreadAct} {i : ℕ} {tr : List (CELLThread × ThreadAct)}

/-! ## Sessions -/

/-- How many calls of `Start` have set `_isRun`. -/
def sessions (s : CELLThread) : ℕ :=
  s.workers.length + if s.owner = .startSpawn then 1 else 0

/-- Two workers are inside `OnWork`. -/
def Overlaps (s : CELLThread) : Prop :=
  ∃ (i j : ℕ) (w w' : WorkerPC), i < j ∧ s.workers[i]? = some w ∧ s.workers[j]? = some w' ∧
    w ≠ .done ∧ w' ≠ .done

/-- A worker writes `_isRun` although a later `Start` has set it, or a `Close` has
returned. -/
def LateWrite (s : CELLThread) (a : ThreadAct) : Prop :=
  ∃ (i : ℕ) (w : WorkerPC), a = .worker i ∧ s.workers[i]? = some w ∧ w.Writes ∧
    (i + 1 < s.sessions ∨ i < s.closed)

/-- What `Close` and `Start` rely on : that a worker is behind its last `_isRun = false` in time. -/
structure EndsInOrder (tr : List (CELLThread × ThreadAct)) (s : CELLThread) (a : ThreadAct) :
    Prop where
  /-- Where `Close` or `Start` finds `_isRun` false, the workers that have cleared it in `Exit`
  have left `OnWork`. -/
  exits : s.FindsFalse a → ∀ i w, Exited tr i → s.workers[i]? = some w → w = .done
  /-- Where `Close` calls `_sem.wait()` before every worker has called `wakeup()`, no wakeup is
  stored. -/
  waits : a = .owner → s.owner = .closeWait → (∃ w ∈ s.workers, ¬w.Woke) → s.sem.wait ≤ 0
  /-- Where `Close` leaves `_sem.wait()`, no worker is between `wakeup()` and
  `_isRun = false`. -/
  wakes : a = .owner → s.owner = .closeWait ∧ 0 < s.sem.wait ∨ s.owner = .closeBlocked →
    .clear ∉ s.workers

theorem endsInOrder_of_orderly (h : ∀ x ∈ tr, x.1.Orderly x.2) :
    Machine.Along EndsInOrder tr := by
  intro pre x post htr
  have hx : x.1.Orderly x.2 := h x (by simp [htr])
  refine ⟨fun _ i _ hexit => ?_, fun _ ho _ => (hx.2.2.1 ho).1, fun ha ho => ?_⟩
  · exact absurd hexit (not_exited_of_orderly fun y hy => h y (by simp [htr, hy]))
  · rcases ho with ⟨ho, hwait⟩ | ho
    · have := (hx.2.2.1 ho).1
      omega
    · exact hx.2.2.2 ha ho

/-- Only the last worker can be inside `OnWork`, and none while `Close` returns or `Start`
launches one. -/
structure Apart (tr : List (CELLThread × ThreadAct)) (s : CELLThread) : Prop
    extends Session (· = .done) tr s where
  sound : s.Sound
  closed : s.closed ≤ s.workers.length
  since : ∀ i w, s.workers[i]? = some w → w ≠ .done → s.closed ≤ i
  /-- `Close` is woken only when every worker has called `wakeup()`. -/
  blocked : s.owner = .closeBlocked → (∀ w ∈ s.workers, w.Woke) ∨ s.sem.wakeup = 0

theorem Apart.init : Apart [] .new :=
  ⟨.init, .init, by simp [new], by simp [new], by simp [new]⟩

theorem Apart.not_overlaps (hs : Apart tr s) : ¬s.Overlaps := by
  rintro ⟨i, j, w, w', hlt, hi, hj, hw, hw'⟩
  have := hs.last i w hi hw
  have := hs.last j w' hj hw'
  omega

theorem Apart.not_lateWrite (hs : Apart tr s) : ¬s.LateWrite a := by
  rintro ⟨i, w, -, hi, hwrites, hlate⟩
  have hw : w ≠ .done := by
    rintro rfl
    exact hwrites.elim
  have hlast := hs.last i w hi hw
  have hclosed := hs.since i w hi hw
  have hspawn : s.owner ≠ .startSpawn := fun ho =>
    hw (hs.alone (Or.inr (Or.inl ho)) w (List.mem_of_getElem? hi))
  rw [sessions, if_neg hspawn] at hlate
  omega

/-- Where `Close` or `Start` goes on, no worker is inside `OnWork`. -/
theorem Apart.allDone (hs : Apart tr s) (hP : EndsInOrder tr s .owner) (h : s.ownerStep = some t)
    (hl : s.Leaves .owner ∨ s.Restarts .owner) : s.AllDone := by
  have hfalse : s.FindsFalse .owner → s.AllDone := by
    intro hf w hw
    obtain ⟨i, hi⟩ := List.mem_iff_getElem?.mp hw
    have hne : ¬s.owner.Stops := by
      rcases hf.2.1 with ho | ho <;> simp [ho, OwnerPC.Stops]
    rcases hs.cleared hf.2.2 hne i w hi with hdone | hexit
    · exact hdone
    · exact hP.exits hf i w hexit hi
  have hwoken (hw : ∀ w ∈ s.workers, w.Woke)
      (ho : s.owner = .closeWait ∧ 0 < s.sem.wait ∨ s.owner = .closeBlocked) : s.AllDone := by
    intro w hmem
    rcases hw w hmem with rfl | hdone
    · exact absurd hmem (hP.wakes rfl ho)
    · exact hdone
  rcases hl with ⟨-, ⟨ho, hrun⟩ | ⟨ho, hwait⟩ | ho⟩ | ⟨-, ho, hrun⟩
  · exact hfalse ⟨rfl, Or.inl ho, hrun⟩
  · refine hwoken (fun w hmem => by_contra fun hw => ?_) (Or.inl ⟨ho, hwait⟩)
    have := hP.waits rfl ho ⟨w, hmem, hw⟩
    omega
  · refine hwoken ((hs.blocked ho).resolve_right fun hzero => ?_) (Or.inr ho)
    have := ready_of_woken ho h
    omega
  · exact hfalse ⟨rfl, Or.inr ho, hrun⟩

/-- What the owner does to the workers, and to what `Close` had found of them. -/
theorem ownerStep_closed (h : s.ownerStep = some t) :
    t.closed = s.closed ∧ s.workers <+: t.workers ∨
      s.owner = .closeUnlock ∧ t.closed = s.workers.length ∧ t.workers = s.workers := by
  cases ho : s.owner <;> simp only [ownerStep, ho] at h
  case idle => cases h
  case startSpawn =>
    obtain rfl := Option.some.inj h
    exact Or.inl ⟨rfl, List.prefix_append _ _⟩
  case closeUnlock =>
    obtain rfl := Option.some.inj h
    exact Or.inr ⟨rfl, rfl, rfl⟩
  case startLock | closeLock | closeBlocked =>
    split at h
    · obtain rfl := Option.some.inj h
      exact Or.inl ⟨rfl, List.prefix_rfl⟩
    · cases h
  all_goals
    obtain rfl := Option.some.inj h
    exact Or.inl ⟨rfl, List.prefix_rfl⟩

theorem Apart.ownerStep (hs : Apart tr s) (hP : EndsInOrder tr s .owner)
    (h : s.ownerStep = some t) : Apart (tr ++ [(s, .owner)]) t := by
  have hsession := hs.toSession.ownerStep h (hs.allDone hP h)
  have hblocked : t.owner = .closeBlocked → (∀ w ∈ t.workers, w.Woke) ∨ t.sem.wakeup = 0 := by
    intro ht
    obtain ⟨ho, -, hwakeup⟩ := ownerStep_closeBlocked h ht
    exact Or.inr (hwakeup.trans (hs.sound.free (by simp [ho])).2)
  rcases ownerStep_closed h with ⟨hclosed, ws, hworkers⟩ | ⟨ho, hclosed, hworkers⟩
  · have hlength := congrArg List.length hworkers
    rw [List.length_append] at hlength
    have hle := hs.closed
    refine ⟨hsession, hs.sound.ownerStep h, by omega, fun i w hi hw => ?_, hblocked⟩
    rw [hclosed]
    by_cases hlt : i < s.workers.length
    · rw [← hworkers, List.getElem?_append_left hlt] at hi
      exact hs.since i w hi hw
    · omega
  · refine ⟨hsession, hs.sound.ownerStep h, Nat.le_of_eq (by rw [hclosed, hworkers]),
      fun i w hi hw => ?_, hblocked⟩
    rw [hworkers] at hi
    exact absurd (hs.alone (Or.inr (Or.inr ho)) w (List.mem_of_getElem? hi)) hw

/-- No worker but the last can wake `Close`. -/
theorem Apart.blocked_moved {w w' : WorkerPC} (hs : Apart tr s) (hw : s.WorkerMoved t i w w')
    (ho : s.owner = .closeBlocked) : (∀ v ∈ t.workers, v.Woke) ∨ t.sem.wakeup = 0 := by
  have hwoke : w'.Woke → ∀ v ∈ t.workers, v.Woke := by
    intro hw' v hv
    obtain ⟨j, hj⟩ := List.mem_iff_getElem?.mp hv
    have hlast := hs.last i w hw.get hw.notDone
    rw [hw.get?] at hj
    split at hj
    · obtain rfl := Option.some.inj hj
      exact hw'
    · refine Or.inr (by_contra fun hne => ?_)
      have := hs.last j v hj hne
      omega
  rcases hs.blocked ho with hall | hzero
  · rcases hall w (List.mem_of_getElem? hw.get) with rfl | rfl
    · exact Or.inl (hwoke (Or.inr (hw.ends rfl)))
    · exact absurd rfl hw.notDone
  · rcases hw.sem with hsem | ⟨⟨-, hw'⟩, -⟩
    · exact Or.inr (hsem ▸ hzero)
    · exact Or.inl (hwoke (Or.inl hw'))

theorem Apart.moved {w w' : WorkerPC} (hs : Apart tr s)
    (ha : (∃ c, w = .callback c) ∨ a = .worker i) (hw : s.WorkerMoved t i w w') :
    Apart (tr ++ [(s, a)]) t := by
  refine ⟨hs.toSession.moved ha hw (fun hdone => absurd hdone hw.notDone) hw.ends
    (fun hdone => absurd hdone hw.notDone), hs.sound.moved hw, ?_, fun j v hj hv => ?_,
    fun ho => hs.blocked_moved hw (hw.owner ▸ ho)⟩
  · rw [hw.workers, List.length_set, hw.closed]
    exact hs.closed
  · rw [hw.closed]
    rw [hw.get?] at hj
    split at hj
    · rename_i hji
      exact hji ▸ hs.since i w hw.get hw.notDone
    · exact hs.since j v hj hv

theorem Apart.step (hs : Apart tr s) (hP : EndsInOrder tr s a) (h : s.act a = some t) :
    Apart (tr ++ [(s, a)]) t := by
  have hsound := hs.sound.step h
  cases stepped h with
  | start hidle =>
    exact ⟨hs.toSession.called _ hidle (Or.inl rfl), hsound, hs.closed, hs.since, by simp⟩
  | close hidle =>
    exact ⟨hs.toSession.called _ hidle (Or.inr rfl), hsound, hs.closed, hs.since, by simp⟩
  | owner hstep => exact hs.ownerStep hP hstep
  | worker ha hw => exact hs.moved ha hw

/-! ## What a worker left alone does -/

/-- Running alone, the worker `i` comes to a write of `_isRun`. -/
def ComesToWrite (s : CELLThread) (i : ℕ) : Prop :=
  ∃ tr u v w, thread.Run s tr u ∧ thread.step u (.worker i) (.ok v) ∧
    u.workers[i]? = some w ∧ w.Writes ∧ u.closed = s.closed

/-- A worker that comes to a write after a step that only moves it. -/
theorem ComesToWrite.next {u : CELLThread} {w w' : WorkerPC} (hget : s.workers[i]? = some w)
    (h : s.act a = some (u.setWorker i w')) (hworkers : u.workers = s.workers)
    (hclosed : u.closed = s.closed)
    (hnext : (u.setWorker i w').workers[i]? = some w' → (u.setWorker i w').ComesToWrite i) :
    s.ComesToWrite i := by
  have hlt : i < s.workers.length := (List.getElem?_eq_some_iff.mp hget).1
  obtain ⟨tr, v, v', w, hrun, hstep, hv, hw, hvc⟩ := hnext (by
    rw [setWorker, hworkers, List.getElem?_set_self hlt])
  exact ⟨_, v, v', w, .cons (thread_step.mpr h) hrun, hstep, hv, hw, hvc.trans hclosed⟩

/-- A worker at a write. -/
theorem ComesToWrite.of_writes {w : WorkerPC} (hget : s.workers[i]? = some w) (hw : w.Writes) :
    s.ComesToWrite i := by
  have hstep : ∃ v, s.stepAt i w = some v := by
    cases w <;> first | exact ⟨_, rfl⟩ | exact hw.elim
  obtain ⟨v, hv⟩ := hstep
  exact ⟨[], s, v, w, .nil s, thread_step.mpr ((act_worker hget).trans hv), hget, hw, rfl⟩

theorem comesToWrite_callback {c : Callback} (hget : s.workers[i]? = some (.callback c)) :
    s.ComesToWrite i := by
  have hwakeup : ∀ {s : CELLThread}, s.workers[i]? = some .wakeup → s.ComesToWrite i :=
    fun hget => .next hget (act_worker hget) rfl rfl fun h => .of_writes h trivial
  have hdestory : ∀ {s : CELLThread}, s.workers[i]? = some (.callback .onDestory) →
      s.ComesToWrite i := fun hget => .next hget (act_ret hget) rfl rfl hwakeup
  have hrun : ∀ {s : CELLThread}, s.workers[i]? = some (.callback .onRun) →
      s.ComesToWrite i := fun hget => .next hget (act_ret hget) rfl rfl hdestory
  cases c with
  | onCreate => exact .next hget (act_ret hget) rfl rfl hrun
  | onRun => exact hrun hget
  | onDestory => exact hdestory hget

theorem comesToWrite_exitLock {c : Callback} (hfree : s.mutex = none)
    (hget : s.workers[i]? = some (.exitLock c)) : s.ComesToWrite i :=
  .next (u := { s with mutex := some (.worker i) }) hget
    ((act_worker hget).trans (if_pos hfree)) rfl rfl fun h => .of_writes h trivial

/-- With the mutex free, every worker inside `OnWork` can come to a write. -/
theorem comesToWrite (hfree : s.mutex = none) {w : WorkerPC} (hget : s.workers[i]? = some w)
    (hw : w ≠ .done) : s.ComesToWrite i := by
  cases w with
  | callback c => exact comesToWrite_callback hget
  | exitTest c =>
    cases hrun : s.isRun with
    | true =>
      have hact : s.act (.worker i) = some (s.setWorker i (.exitLock c)) := by
        rw [act_worker hget, stepAt, hrun, if_pos rfl]
      exact .next hget hact rfl rfl (comesToWrite_exitLock hfree)
    | false =>
      have hact : s.act (.worker i) = some (s.setWorker i (.callback c)) := by
        rw [act_worker hget, stepAt, hrun, if_neg Bool.false_ne_true]
      exact .next hget hact rfl rfl comesToWrite_callback
  | exitLock c => exact comesToWrite_exitLock hfree hget
  | exitSet c => exact .of_writes hget trivial
  | exitUnlock c =>
    exact .next (u := { s with mutex := none }) hget (act_worker hget) rfl rfl
      comesToWrite_callback
  | wakeup => exact .next hget (act_worker hget) rfl rfl fun h => .of_writes h trivial
  | clear => exact .of_writes hget trivial
  | done => exact absurd rfl hw

/-- Two workers overlap, or one is about to write late. -/
def BreaksIn (s : CELLThread) : Prop :=
  s.Overlaps ∨ ∃ a t, thread.step s a (.ok t) ∧ s.LateWrite a

/-- A `Close` that returns over a worker leaves it to write later. -/
theorem breaksIn_of_leaves (hl : s.Leaves a) (hd : ¬s.AllDone) (h : s.act a = some t) :
    ∃ tr u, thread.Run t tr u ∧ u.BreaksIn := by
  obtain ⟨howner, hworkers⟩ := act_of_leaves hl h
  simp only [AllDone, not_forall] at hd
  obtain ⟨w, hmem, hw⟩ := hd
  obtain ⟨i, hget⟩ := List.mem_iff_getElem?.mp hmem
  have hlt : i < t.workers.length := hworkers ▸ (List.getElem?_eq_some_iff.mp hget).1
  have hret := act_of_closeUnlock howner
  obtain ⟨tr, u, v, w', hrun, hstep, hu, hwrites, hclosed⟩ :=
    comesToWrite (s := { t with mutex := none, owner := .idle, closed := t.workers.length })
      rfl (hworkers ▸ hget) hw
  refine ⟨_, u, .cons (thread_step.mpr hret) hrun, Or.inr ⟨_, v, hstep, ?_⟩⟩
  exact ⟨i, w', rfl, hu, hwrites, Or.inr (hclosed ▸ hlt)⟩

/-- A `Start` over a worker launches a second one. -/
theorem breaksIn_of_restarts (hr : s.Restarts a) (hd : ¬s.AllDone) (h : s.act a = some t) :
    ∃ tr u, thread.Run t tr u ∧ u.BreaksIn := by
  obtain ⟨rfl, howner, hrun⟩ := hr
  simp only [AllDone, not_forall] at hd
  obtain ⟨w, hmem, hw⟩ := hd
  obtain ⟨i, hget⟩ := List.mem_iff_getElem?.mp hmem
  have hlt : i < s.workers.length := (List.getElem?_eq_some_iff.mp hget).1
  have ht : t = { s with owner := .startSet } := by
    simp only [act, ownerStep, howner, hrun, Bool.false_eq_true, if_false] at h
    rw [← Option.some.inj h, ← hrun]
  have hset : t.act .owner = some { t with isRun := true, owner := .startSpawn } := by
    rw [ht]
    rfl
  have hspawn : CELLThread.act { t with isRun := true, owner := .startSpawn } .owner =
      some { t with isRun := true, workers := t.workers ++ [.callback .onCreate],
                    owner := .startUnlock } :=
    rfl
  refine ⟨_, _, .cons (thread_step.mpr hset) (.single (thread_step.mpr hspawn)),
    Or.inl ⟨i, s.workers.length, w, .callback .onCreate, hlt, ?_, ?_, hw, by simp⟩⟩
  · rw [ht, List.getElem?_append_left hlt, hget]
  · rw [ht, List.getElem?_concat_length]

/-- A step that does not keep the order leaves a worker inside `OnWork`. -/
theorem leaves_of_not_endsInOrder (hP : ¬EndsInOrder tr s a) :
    (s.Leaves a ∨ s.Restarts a) ∧ ¬s.AllDone := by
  by_contra hnot
  have hall : s.Leaves a ∨ s.Restarts a → s.AllDone := fun hl => by_contra fun hd => hnot ⟨hl, hd⟩
  refine hP ⟨fun hf i w _ hi => ?_, fun ha ho hw => ?_, fun ha ho hmem => ?_⟩
  · refine hall ?_ w (List.mem_of_getElem? hi)
    obtain ⟨ha, ho | ho, hrun⟩ := hf
    · exact Or.inl ⟨ha, Or.inl ⟨ho, hrun⟩⟩
    · exact Or.inr ⟨ha, ho, hrun⟩
  · by_contra hwait
    obtain ⟨w, hmem, hwoke⟩ := hw
    exact hwoke (Or.inr (hall (Or.inl ⟨ha, Or.inr (Or.inl ⟨ho, Int.not_le.mp hwait⟩)⟩) w hmem))
  · have hl : s.Leaves a := ⟨ha, Or.inr (ho.imp_right id)⟩
    cases hall (Or.inl hl) _ hmem

end CELLThread

/-- When sessions are isolated. In a run in which a worker that wakes `Close`, or has cleared
`_isRun` in `Exit`, is behind its last statement when `Close` or `Start` goes on, and `Close`
takes no wakeup stored before its worker has called `wakeup()`, at most one worker is inside
`OnWork`, none writes `_isRun` behind its session, and none is left when `Close` returns; from
a step that goes on otherwise a run breaks this. -/
theorem sessions_isolated_guard {s₀ s : CELLThread} {tr : List (CELLThread × ThreadAct)}
    (hinit : thread.init s₀) (hrun : thread.Run s₀ tr s) :
    (Machine.Along CELLThread.EndsInOrder tr →
      (∀ x ∈ tr, ¬x.1.Overlaps ∧ ¬x.1.LateWrite x.2 ∧ (x.1.Returns x.2 → x.1.AllDone)) ∧
      ¬s.Overlaps) ∧
    ∀ a t, thread.step s a (.ok t) → ¬CELLThread.EndsInOrder tr s a →
      ∃ tr' u, thread.Run t tr' u ∧ u.BreaksIn := by
  have hs₀ : CELLThread.Apart [] s₀ := by
    obtain rfl : s₀ = .new := hinit
    exact .init
  refine ⟨fun hP => ?_, fun a t hst hP => ?_⟩
  · obtain ⟨hs, hall⟩ := hrun.forall_of_along
      (B := fun s a => ¬s.Overlaps ∧ ¬s.LateWrite a ∧ (s.Returns a → s.AllDone))
      (fun _ _ _ _ hs hP hst => CELLThread.Apart.step hs hP (CELLThread.thread_step.mp hst))
      (fun _ _ _ _ hs _ _ => ⟨hs.not_overlaps, hs.not_lateWrite,
        fun hret => hs.alone (Or.inr (Or.inr hret.2))⟩) hP hs₀
    exact ⟨hall, hs.not_overlaps⟩
  · obtain ⟨hleaves, hdone⟩ := CELLThread.leaves_of_not_endsInOrder hP
    rcases hleaves with hl | hr
    · exact CELLThread.breaksIn_of_leaves hl hdone (CELLThread.thread_step.mp hst)
    · exact CELLThread.breaksIn_of_restarts hr hdone (CELLThread.thread_step.mp hst)

/-- A worker wakes `Close` and writes `_isRun` only after the next `Start` has set it. -/
theorem write_late : ∃ s₀ tr s, thread.init s₀ ∧ thread.Run s₀ tr s ∧
    ∃ x ∈ tr, x.1.LateWrite x.2 := by
  let acts : List ThreadAct := [.start, .owner, .owner, .owner, .owner, .owner, .ret 0, .close,
    .owner, .owner, .owner, .owner, .ret 0, .ret 0, .worker 0, .owner, .owner, .start, .owner,
    .owner, .owner, .owner]
  have heval : ((acts.foldlM CELLThread.act .new).map fun s => (s.isRun, s.closed, s.workers)) =
      some (true, 1, [.clear, .callback .onCreate]) := by
    decide
  obtain ⟨tr, s, hrun, -, hstate⟩ := CELLThread.thread_run heval
  simp only [Prod.mk.injEq] at hstate
  have hget : s.workers[0]? = some .clear := by rw [hstate.2.2]; rfl
  have hwrite := CELLThread.thread_step.mpr (CELLThread.act_worker hget)
  have hlate : s.LateWrite (.worker 0) :=
    ⟨0, .clear, rfl, hget, trivial, Or.inr (by rw [hstate.2.1]; decide)⟩
  exact ⟨_, _, _, rfl, hrun.snoc hwrite, (s, .worker 0), by simp, hlate⟩

/-- Sessions are not isolated. -/
theorem not_sessions_isolated : ¬∀ (s₀ s : CELLThread) (tr : List (CELLThread × ThreadAct)),
    thread.init s₀ → thread.Run s₀ tr s → ∀ x ∈ tr, ¬x.1.Overlaps ∧ ¬x.1.LateWrite x.2 := by
  intro hall
  obtain ⟨s₀, tr, s, hinit, hrun, x, hx, hlate⟩ := write_late
  exact (hall s₀ s tr hinit hrun x hx).2 hlate

/-- Every worker has left `OnWork` where `Close` returns, twice, in a run with two sessions. In the
run above `Close` is woken before the worker has left it. -/
theorem sessions_isolated_guard_late :
    (∃ tr s, thread.Run .new tr s ∧ s.closed = 2 ∧
      ∀ x ∈ tr, x.1.Returns x.2 → x.1.AllDone) ∧
    ∃ s₀ tr s, thread.init s₀ ∧ thread.Run s₀ tr s ∧
      ¬Machine.Along CELLThread.EndsInOrder tr := by
  constructor
  · obtain ⟨tr, s, hrun, hclosed, horderly⟩ := CELLThread.orderly_twice
    obtain ⟨hall, -⟩ := (sessions_isolated_guard rfl hrun).1
      (CELLThread.endsInOrder_of_orderly horderly)
    exact ⟨tr, s, hrun, hclosed, fun x hx => (hall x hx).2.2⟩
  · obtain ⟨s₀, tr, s, hinit, hrun, x, hx, hlate⟩ := write_late
    refine ⟨s₀, tr, s, hinit, hrun, fun hP => ?_⟩
    exact (((sessions_isolated_guard hinit hrun).1 hP).1 x hx).2.1 hlate

end CellNet
