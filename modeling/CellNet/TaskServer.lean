import CellNet.Thread

/-!
# The task queue

`CELLTaskServer` : producers append to `_tasksBuf` under a lock, and the worker of a
`CELLThread` moves the whole buffer to `_tasks`, executes these in order and clears them,
until it sees `isRun()` turn false. Then it executes what is left in the buffer, by an
iterator that follows what is appended meanwhile.

A task carries the number of its `addTask` call. The state keeps the list of all the
tasks that were added and the list of those that were executed, and `Queued` says how they
differ at each place of `OnRun` : by `pending`, what the worker still has ahead of it.
`Advances` says what a step of `OnRun` can do with the lists.
`Session` says which phase of the thread goes with which part of `OnRun`. The two together
are preserved by every step, and `tasks_in_order` reads the promise off them.
-/

namespace CellNet

variable {τ : Type*}

/-- A task with the number of the call of `addTask` it came with. -/
structure CELLTask (τ : Type*) where
  call : ℕ
  body : τ
  deriving DecidableEq, Repr

/-- Where the worker is in `OnRun`. -/
inductive RunPC
  /-- `while (pThread->isRun())`. -/
  | loop
  /-- `if (!_tasksBuf.empty())`. -/
  | testBuf
  /-- The locked section that moves `_tasksBuf` to `_tasks`. -/
  | handOver
  /-- `if (_tasks.empty())`. -/
  | testTasks
  /-- The loop over `_tasks`, at the entry `j`. -/
  | exec (j : ℕ)
  /-- `_tasks.clear()`. -/
  | clear
  /-- The start of the loop over `_tasksBuf`. -/
  | drainBegin
  /-- The loop over `_tasksBuf`, at an entry or at `end()`. -/
  | drain (it : Option ℕ)
  /-- The loop over `_tasksBuf`, behind the entry `k`. -/
  | drainNext (k : ℕ)
  /-- At the end of `OnRun`. -/
  | ended
  deriving DecidableEq, Repr

/-- In the `while` loop. -/
def RunPC.InLoop : RunPC → Prop
  | .loop | .testBuf | .handOver | .testTasks | .exec _ | .clear => True
  | .drainBegin | .drain _ | .drainNext _ | .ended => False

/-- Behind the last task of the drain. -/
def RunPC.Past : RunPC → Prop
  | .drain none | .ended => True
  | _ => False

instance : DecidablePred RunPC.Past
  | .drain none | .ended => isTrue trivial
  | .drain (some _) | .drainNext _ | .drainBegin | .loop | .testBuf | .handOver | .testTasks
  | .exec _ | .clear => isFalse not_false

theorem RunPC.past_iff {r : RunPC} : r.Past ↔ r = .drain none ∨ r = .ended := by
  unfold RunPC.Past
  split <;> simp_all

theorem RunPC.InLoop.not_past {r : RunPC} (hr : r.InLoop) : ¬r.Past := by
  rw [RunPC.past_iff]
  rintro (rfl | rfl) <;> exact hr.elim

/-- A `CELLTaskServer` with its thread. -/
structure CELLTaskServer (τ : Type*) where
  /-- `_tasks`. -/
  tasks : List (CELLTask τ)
  /-- `_tasksBuf`. -/
  tasksBuf : List (CELLTask τ)
  /-- `_thread`. -/
  thread : CELLThread
  run : RunPC
  /-- The tasks of all the calls of `addTask`, in their order. -/
  added : List (CELLTask τ)
  /-- The tasks the worker has executed, in their order. -/
  executed : List (CELLTask τ)
  /-- `Start` has been called. -/
  started : Bool
  /-- What had been added when `Close` was called. -/
  atClose : Option (List (CELLTask τ))

namespace CELLTaskServer

/-- A new server. -/
def new : CELLTaskServer τ :=
  ⟨[], [], .new, .loop, [], [], false, none⟩

/-- `addTask`. -/
def addTask (s : CELLTaskServer τ) (task : τ) : CELLTaskServer τ :=
  { s with
    tasksBuf := s.tasksBuf ++ [⟨s.added.length, task⟩]
    added := s.added ++ [⟨s.added.length, task⟩] }

/-- The worker executes the task `t`, which calls `addTask` for each of `adds`. -/
def execute (s : CELLTaskServer τ) (t : CELLTask τ) (adds : List τ) : CELLTaskServer τ :=
  adds.foldl addTask { s with executed := s.executed ++ [t] }

/-- The thread takes a step. -/
def onThread (s : CELLTaskServer τ) (a : ThreadAct) : Option (CELLTaskServer τ) :=
  (s.thread.act a).map fun thread => { s with thread }

/-- The next step of `OnRun`. -/
def onRun (s : CELLTaskServer τ) (adds : List τ) : Option (CELLTaskServer τ) :=
  match s.run with
  | .loop => some { s with run := if s.thread.isRun then .testBuf else .drainBegin }
  | .testBuf => some { s with run := if s.tasksBuf.isEmpty then .testTasks else .handOver }
  | .handOver => some { s with tasks := s.tasks ++ s.tasksBuf, tasksBuf := [], run := .testTasks }
  | .testTasks => some { s with run := if s.tasks.isEmpty then .loop else .exec 0 }
  | .exec j =>
    match s.tasks[j]? with
    | some t => some { s.execute t adds with run := .exec (j + 1) }
    | none => some { s with run := .clear }
  | .clear => some { s with tasks := [], run := .loop }
  | .drainBegin => some { s with run := .drain (if s.tasksBuf.isEmpty then none else some 0) }
  | .drain (some k) =>
    s.tasksBuf[k]?.map fun t => { s.execute t adds with run := .drainNext k }
  | .drain none => some { s with run := .ended }
  | .drainNext k =>
    some { s with run := .drain (if k + 1 < s.tasksBuf.length then some (k + 1) else none) }
  | .ended => s.onThread (.ret 0)

/-- The next step of the worker in `OnWork`, where `_onCreate` and `_onDestory` are null. -/
def workerStep (s : CELLTaskServer τ) (adds : List τ) : Option (CELLTaskServer τ) :=
  match s.thread.workers[0]? with
  | some (WorkerPC.callback .onRun) => s.onRun adds
  | some (WorkerPC.callback _) => s.onThread (.ret 0)
  | _ => s.onThread (.worker 0)

end CELLTaskServer

/-- What can happen to a task server. -/
inductive TaskAct (τ : Type*)
  /-- A producer calls `addTask`. -/
  | addTask (task : τ)
  /-- The owner calls `Start`. -/
  | start
  /-- The owner calls `Close`. -/
  | close
  /-- The owner's next step in `Start` or `Close`. -/
  | owner
  /-- The worker's next step. If it executes a task, the task adds `adds`. -/
  | worker (adds : List τ)

namespace CELLTaskServer

/-- One action. The owner calls `Start` once and then `Close` once. -/
def act (s : CELLTaskServer τ) : TaskAct τ → Option (CELLTaskServer τ)
  | .addTask task => some (s.addTask task)
  | .start => if s.started then none else { s with started := true }.onThread .start
  | .close =>
    if s.started && s.atClose.isNone then { s with atClose := some s.added }.onThread .close
    else none
  | .owner => s.onThread .owner
  | .worker adds => s.workerStep adds

end CELLTaskServer

/-- A new task server with its producers, its owner and its worker. -/
def taskServer (τ : Type*) : Machine (CELLTaskServer τ) (TaskAct τ) Empty :=
  .ofStep (· = .new) CELLTaskServer.act

namespace CELLTaskServer

variable {s t : CELLTaskServer τ} {a : TaskAct τ} {adds : List τ}

/-! ## The lists -/

/-- What the worker has ahead of it. Behind the end of the drain, that is what it leaves. -/
def pending (s : CELLTaskServer τ) : List (CELLTask τ) :=
  match s.run with
  | .loop | .testBuf | .handOver | .testTasks => s.tasks ++ s.tasksBuf
  | .exec j => s.tasks.drop j ++ s.tasksBuf
  | .clear | .drainBegin => s.tasksBuf
  | .drain (some k) => s.tasksBuf.drop k
  | .drainNext k => s.tasksBuf.drop (k + 1)
  | .drain none | .ended => s.added.drop s.executed.length

/-- What was added is what was executed and what is pending, and the drain has ended only
behind what `Close` found added. -/
structure Queued (s : CELLTaskServer τ) : Prop where
  calls : s.added.map CELLTask.call = List.range s.added.length
  added : s.added = s.executed ++ s.pending
  loop : s.run = .loop → s.tasks = []
  drain : ∀ k, s.run = .drain (some k) ∨ s.run = .drainNext k → k < s.tasksBuf.length
  atClose : ∀ before, s.atClose = some before → before <+: s.added
  drained : s.run = .drain none ∨ s.run = .ended →
    ∀ before, s.atClose = some before → before <+: s.executed

theorem Queued.new : Queued (CELLTaskServer.new : CELLTaskServer τ) :=
  ⟨rfl, rfl, fun _ => rfl, by simp [CELLTaskServer.new], by simp [CELLTaskServer.new],
    by simp [CELLTaskServer.new]⟩

theorem Queued.executed_prefix (hs : s.Queued) : s.executed <+: s.added :=
  ⟨s.pending, hs.added.symm⟩

/-- Before the end of the drain, a new task is pending behind the others. -/
theorem pending_addTask (hrun : ¬s.run.Past)
    (hdrain : ∀ k, s.run = .drain (some k) ∨ s.run = .drainNext k → k < s.tasksBuf.length)
    (task : τ) : (s.addTask task).pending = s.pending ++ [⟨s.added.length, task⟩] := by
  unfold pending addTask
  cases hpc : s.run with
  | drain it =>
    cases it with
    | none => exact absurd (RunPC.past_iff.mpr (Or.inl hpc)) hrun
    | some k =>
      have : k ≤ s.tasksBuf.length := Nat.le_of_lt (hdrain k (Or.inl hpc))
      simp only [List.drop_append_of_le_length this]
  | drainNext k =>
    have : k + 1 ≤ s.tasksBuf.length := hdrain k (Or.inr hpc)
    simp only [List.drop_append_of_le_length this]
  | ended => exact absurd (RunPC.past_iff.mpr (Or.inr hpc)) hrun
  | _ => simp only [List.append_assoc]

theorem pending_of_past (hrun : s.run.Past) : s.pending = s.added.drop s.executed.length := by
  rcases RunPC.past_iff.mp hrun with hpc | hpc <;> simp only [pending, hpc]

theorem Queued.pending_addTask (hs : s.Queued) (task : τ) :
    (s.addTask task).pending = s.pending ++ [⟨s.added.length, task⟩] := by
  by_cases hrun : s.run.Past
  · rw [pending_of_past hrun, pending_of_past (s := s.addTask task) hrun]
    exact List.drop_append_of_le_length hs.executed_prefix.length_le
  · exact CELLTaskServer.pending_addTask hrun hs.drain task

theorem Queued.addTask (hs : s.Queued) (task : τ) : (s.addTask task).Queued := by
  refine ⟨?_, ?_, hs.loop, fun k hk => ?_, fun before hb => ?_, hs.drained⟩
  · simp only [CELLTaskServer.addTask, List.map_append, hs.calls, List.length_append,
      List.length_singleton, List.range_succ, List.map_cons, List.map_nil]
  · rw [hs.pending_addTask, ← List.append_assoc]
    exact congrArg (· ++ [_]) hs.added
  · have := hs.drain k hk
    simp only [CELLTaskServer.addTask, List.length_append, List.length_singleton]
    omega
  · exact (hs.atClose before hb).trans (List.prefix_append _ _)

theorem Queued.addTasks (hs : s.Queued) (adds : List τ) :
    (adds.foldl CELLTaskServer.addTask s).Queued := by
  induction adds generalizing s with
  | nil => exact hs
  | cons task adds ih => exact ih (hs.addTask task)

/-- What the worker executes does not depend on where it goes on. -/
theorem execute_run (s : CELLTaskServer τ) (t : CELLTask τ) (adds : List τ) (r : RunPC) :
    { s.execute t adds with run := r } =
      adds.foldl addTask { s with executed := s.executed ++ [t], run := r } := by
  have hcomm : ∀ s : CELLTaskServer τ, { adds.foldl addTask s with run := r } =
      adds.foldl addTask { s with run := r } := by
    induction adds with
    | nil => exact fun _ => rfl
    | cons task adds ih => exact fun s => ih (s.addTask task)
  exact hcomm _

/-- What a step of `OnRun` does. -/
inductive Advances (s : CELLTaskServer τ) (adds : List τ) : CELLTaskServer τ → Prop
  /-- It executes the first pending task. -/
  | execute {task : CELLTask τ} {r : RunPC} (hfrom : ¬s.run.Past) (hto : ¬r.Past)
      (hpending : s.pending =
        task :: pending { s with executed := s.executed ++ [task], run := r })
      (hphase : r.InLoop ↔ s.run.InLoop) (hloop : r ≠ .loop)
      (hdrain : ∀ k, r = .drain (some k) ∨ r = .drainNext k → k < s.tasksBuf.length) :
      Advances s adds { s.execute task adds with run := r }
  /-- It moves on, and what is pending stays so. -/
  | goTo {tasks tasksBuf : List (CELLTask τ)} {r : RunPC} (hfrom : ¬s.run.Past) (hto : ¬r.Past)
      (hpending : (s.run = .loop → s.tasks = []) →
        pending { s with tasks, tasksBuf, run := r } = s.pending)
      (hbuf : List.Sublist tasksBuf s.tasksBuf)
      (hlists : List.Sublist (tasks ++ tasksBuf) (s.tasks ++ s.tasksBuf))
      (hphase : s.thread.isRun = true → s.run.InLoop → r.InLoop) (hloop : r = .loop → tasks = [])
      (hleft : ¬r.InLoop → tasks = s.tasks ∧ (¬s.run.InLoop ∨ s.run = .loop))
      (hdrain : ∀ k, r = .drain (some k) ∨ r = .drainNext k → k < tasksBuf.length) :
      Advances s adds { s with tasks, tasksBuf, run := r }
  /-- It finds the buffer drained. -/
  | drained (hfrom : ¬s.run.Past) (hphase : ¬s.run.InLoop) (hpending : s.pending = []) :
      Advances s adds { s with run := .drain none }
  | ended (hfrom : s.run = .drain none) : Advances s adds { s with run := .ended }
  | ret {t : CELLTaskServer τ} (hfrom : s.run = .ended) (h : s.onThread (.ret 0) = some t) :
      Advances s adds t

/-- It moves on in the `while` loop. -/
theorem Advances.inLoop {tasks tasksBuf : List (CELLTask τ)} {r : RunPC} (hfrom : s.run.InLoop)
    (hto : r.InLoop) (hpending : pending { s with tasks, tasksBuf, run := r } = s.pending)
    (hbuf : List.Sublist tasksBuf s.tasksBuf)
    (hlists : List.Sublist (tasks ++ tasksBuf) (s.tasks ++ s.tasksBuf))
    (hloop : r = .loop → tasks = []) :
    s.Advances adds { s with tasks, tasksBuf, run := r } := by
  refine .goTo hfrom.not_past hto.not_past (fun _ => hpending) hbuf hlists (fun _ _ => hto) hloop
    (fun hleft => absurd hto hleft) fun k hk => ?_
  rcases hk with rfl | rfl <;> exact hto.elim

/-- It moves on outside the loop, to which it does not return. -/
theorem Advances.inDrain {r : RunPC} (hfrom : ¬s.run.InLoop) (hpast : ¬s.run.Past)
    (hto : ¬r.InLoop) (hrpast : ¬r.Past) (hpending : pending { s with run := r } = s.pending)
    (hdrain : ∀ k, r = .drain (some k) ∨ r = .drainNext k → k < s.tasksBuf.length) :
    s.Advances adds { s with run := r } :=
  .goTo hpast hrpast (fun _ => hpending) (List.Sublist.refl _) (List.Sublist.refl _)
    (fun _ h => absurd h hfrom) (fun h => absurd (h ▸ trivial) hto) (fun _ => ⟨rfl, Or.inl hfrom⟩)
    hdrain

theorem Advances.of_onRun (h : s.onRun adds = some t) : s.Advances adds t := by
  have hinLoop : ∀ {r : RunPC}, s.run = r → r.InLoop → s.run.InLoop := fun hr hloop => hr ▸ hloop
  unfold CELLTaskServer.onRun at h
  cases hrun : s.run with
  | loop =>
    simp only [hrun, Option.some.injEq] at h
    subst h
    split
    · exact .inLoop (hinLoop hrun trivial) trivial (by simp [pending, hrun]) (List.Sublist.refl _)
        (List.Sublist.refl _) (by simp)
    · rename_i hisRun
      exact .goTo (hinLoop hrun trivial).not_past (by simp [RunPC.Past])
        (fun htasks => by simp [pending, hrun, htasks hrun]) (List.Sublist.refl _)
        (List.Sublist.refl _) (fun h => absurd h hisRun) (by simp) (fun _ => ⟨rfl, Or.inr hrun⟩)
        (by simp)
  | testBuf =>
    simp only [hrun, Option.some.injEq] at h
    subst h
    split <;> exact .inLoop (hinLoop hrun trivial) trivial (by simp [pending, hrun])
      (List.Sublist.refl _) (List.Sublist.refl _) (by simp)
  | handOver =>
    simp only [hrun, Option.some.injEq] at h
    subst h
    exact .inLoop (hinLoop hrun trivial) trivial (by simp [pending, hrun]) (List.nil_sublist _)
      (by simp) (by simp)
  | testTasks =>
    simp only [hrun, Option.some.injEq] at h
    subst h
    split
    · rename_i hempty
      exact .inLoop (hinLoop hrun trivial) trivial (by simp [pending, hrun]) (List.Sublist.refl _)
        (List.Sublist.refl _) (fun _ => List.isEmpty_iff.mp hempty)
    · exact .inLoop (hinLoop hrun trivial) trivial (by simp [pending, hrun]) (List.Sublist.refl _)
        (List.Sublist.refl _) (by simp)
  | exec j =>
    simp only [hrun] at h
    cases hget : s.tasks[j]? with
    | some task =>
      simp only [hget, Option.some.injEq] at h
      subst h
      refine .execute (hinLoop hrun trivial).not_past (by simp [RunPC.Past]) ?_
        (by simp [hrun, RunPC.InLoop]) (by simp) (by simp)
      obtain ⟨hj, rfl⟩ := List.getElem?_eq_some_iff.mp hget
      simp only [pending, hrun]
      rw [List.drop_eq_getElem_cons hj, List.cons_append]
    | none =>
      simp only [hget, Option.some.injEq] at h
      subst h
      have hj : s.tasks.drop j = [] := List.drop_eq_nil_of_le (List.getElem?_eq_none_iff.mp hget)
      exact .inLoop (hinLoop hrun trivial) trivial (by simp [pending, hrun, hj])
        (List.Sublist.refl _) (List.Sublist.refl _) (by simp)
  | clear =>
    simp only [hrun, Option.some.injEq] at h
    subst h
    exact .inLoop (hinLoop hrun trivial) trivial (by simp [pending, hrun]) (List.Sublist.refl _)
      (List.sublist_append_right _ _) (fun _ => rfl)
  | drainBegin =>
    simp only [hrun, Option.some.injEq] at h
    subst h
    split
    · rename_i hempty
      exact .drained (by simp [hrun, RunPC.Past]) (by simp [hrun, RunPC.InLoop])
        (by simpa [pending, hrun] using hempty)
    · rename_i hempty
      have hpos : 0 < s.tasksBuf.length := List.length_pos_iff.mpr (by simpa using hempty)
      exact .inDrain (by simp [hrun, RunPC.InLoop]) (by simp [hrun, RunPC.Past])
        (by simp [RunPC.InLoop]) (by simp [RunPC.Past]) (by simp [pending, hrun]) (by simp [hpos])
  | drain it =>
    cases it with
    | none =>
      simp only [hrun, Option.some.injEq] at h
      subst h
      exact .ended hrun
    | some k =>
      simp only [hrun] at h
      obtain ⟨task, hget, rfl⟩ := Option.map_eq_some_iff.mp h
      obtain ⟨hk, rfl⟩ := List.getElem?_eq_some_iff.mp hget
      refine .execute (by simp [hrun, RunPC.Past]) (by simp [RunPC.Past]) ?_
        (by simp [hrun, RunPC.InLoop]) (by simp) (by simp [hk])
      simp only [pending, hrun]
      exact List.drop_eq_getElem_cons hk
  | drainNext k =>
    simp only [hrun, Option.some.injEq] at h
    subst h
    split
    · rename_i hk
      exact .inDrain (by simp [hrun, RunPC.InLoop]) (by simp [hrun, RunPC.Past])
        (by simp [RunPC.InLoop]) (by simp [RunPC.Past]) (by simp [pending, hrun]) (by simp [hk])
    · rename_i hk
      have hdrop : s.tasksBuf.drop (k + 1) = [] := List.drop_eq_nil_of_le (by omega)
      exact .drained (by simp [hrun, RunPC.Past]) (by simp [hrun, RunPC.InLoop])
        (by simp [pending, hrun, hdrop])
  | ended =>
    simp only [hrun] at h
    exact .ret hrun h

/-- The worker executes the first pending task. -/
theorem Queued.execute (hs : s.Queued) {t : CELLTask τ} {r : RunPC}
    (hpending : s.pending = t :: pending { s with executed := s.executed ++ [t], run := r })
    (hloop : r ≠ .loop) (hdrain : ∀ k, r = .drain (some k) ∨ r = .drainNext k →
      k < s.tasksBuf.length)
    (hdrained : ¬(r = .drain none ∨ r = .ended)) (adds : List τ) :
    Queued { s.execute t adds with run := r } := by
  rw [execute_run]
  apply Queued.addTasks
  refine ⟨hs.calls, ?_, fun hr => absurd hr hloop, hdrain, hs.atClose,
    fun hr => absurd hr hdrained⟩
  simpa only [hpending, List.append_assoc, List.singleton_append] using hs.added

/-- The worker moves on without executing a task. -/
theorem Queued.goTo (hs : s.Queued) (hadded : t.added = s.added)
    (hexecuted : t.executed = s.executed) (hclose : t.atClose = s.atClose)
    (hpending : t.pending = s.pending)
    (hloop : t.run = .loop → t.tasks = [])
    (hdrain : ∀ k, t.run = .drain (some k) ∨ t.run = .drainNext k → k < t.tasksBuf.length)
    (hdrained : t.run = .drain none ∨ t.run = .ended → s.added = s.executed ∨
      s.run = .drain none ∨ s.run = .ended) : t.Queued := by
  refine ⟨by rw [hadded, hs.calls], by rw [hadded, hexecuted, hpending, hs.added], hloop, hdrain,
    by rw [hadded, hclose]; exact hs.atClose, fun hr before hb => ?_⟩
  rw [hexecuted]
  rw [hclose] at hb
  rcases hdrained hr with he | hr
  · exact he ▸ hs.atClose before hb
  · exact hs.drained hr before hb

theorem onThread_eq {x : ThreadAct} (h : s.onThread x = some t) :
    ∃ thread, s.thread.act x = some thread ∧ t = { s with thread } := by
  obtain ⟨thread, hact, rfl⟩ := Option.map_eq_some_iff.mp h
  exact ⟨thread, hact, rfl⟩

theorem Queued.thread (hs : s.Queued) (thread : CELLThread) : Queued { s with thread } :=
  ⟨hs.calls, hs.added, hs.loop, hs.drain, hs.atClose, hs.drained⟩

/-- The next step of `OnRun`. -/
theorem Queued.onRun (hs : s.Queued) (h : s.onRun adds = some t) : t.Queued := by
  cases Advances.of_onRun h with
  | execute hfrom hto hpending hphase hloop hdrain =>
    exact hs.execute hpending hloop hdrain (RunPC.past_iff.not.mp hto) adds
  | goTo hfrom hto hpending hbuf hlists hphase hloop hleft hdrain =>
    exact hs.goTo rfl rfl rfl (hpending hs.loop) hloop hdrain
      fun hr => absurd (RunPC.past_iff.mpr hr) hto
  | drained hfrom hphase hpending =>
    have hall : s.added = s.executed := by simpa [hpending] using hs.added
    refine hs.goTo rfl rfl rfl ?_ (by simp) (by simp) fun _ => Or.inl hall
    rw [hpending]
    simp [pending, hall]
  | ended hfrom =>
    exact hs.goTo rfl rfl rfl (by simp [pending, hfrom]) (by simp) (by simp)
      fun _ => Or.inr (Or.inl hfrom)
  | ret hfrom h =>
    obtain ⟨thread, -, rfl⟩ := onThread_eq h
    exact hs.thread thread

/-! ## The session -/

/-- The worker has not yet called `wakeup`. -/
def Working (s : CELLTaskServer τ) : Prop :=
  (s.thread.workers = [.callback .onCreate] ∧ s.run = .loop) ∨
  s.thread.workers = [.callback .onRun] ∨
  ((s.thread.workers = [.callback .onDestory] ∨ s.thread.workers = [.wakeup]) ∧ s.run = .ended)

/-- The worker has called `wakeup`. -/
def Woken (s : CELLTaskServer τ) : Prop :=
  (s.thread.workers = [.clear] ∨ s.thread.workers = [.done]) ∧ s.run = .ended

/-- The phases of a server that is started once and then closed once. -/
inductive Session (s : CELLTaskServer τ) : Prop
  /-- There is no worker yet. -/
  | starting
    (howner : (s.thread.owner = .idle ∧ s.started = false) ∨
      ((s.thread.owner = .startLock ∨ s.thread.owner = .startTest ∨ s.thread.owner = .startSet ∨
        s.thread.owner = .startSpawn) ∧ s.started = true))
    (hisRun : s.thread.isRun = true ↔ s.thread.owner = .startSpawn)
    (hworkers : s.thread.workers = []) (hrun : s.run = .loop) (hsem : s.thread.sem = .new)
    (hclose : s.atClose = none)
  /-- `Close` has not cleared `_isRun`. -/
  | running (hstarted : s.started = true)
    (howner : ((s.thread.owner = .startUnlock ∨ s.thread.owner = .idle) ∧ s.atClose = none) ∨
      ((s.thread.owner = .closeLock ∨ s.thread.owner = .closeTest ∨ s.thread.owner = .closeSet) ∧
        s.atClose ≠ none))
    (hisRun : s.thread.isRun = true) (hworking : s.Working) (hrun : s.run.InLoop)
    (hsem : s.thread.sem = .new)
  /-- `Close` has cleared `_isRun` and not yet seen a wakeup. -/
  | closing (hstarted : s.started = true)
    (howner : (s.thread.owner = .closeWait ∧ s.thread.sem = .new) ∨
      (s.thread.owner = .closeBlocked ∧ s.thread.sem = ⟨-1, 0⟩))
    (hworking : s.Working) (hclose : s.atClose ≠ none)
  /-- The worker has sent its wakeup. -/
  | woken (hstarted : s.started = true)
    (howner : (s.thread.owner = .closeWait ∧ s.thread.sem = ⟨1, 0⟩) ∨
      (s.thread.owner = .closeBlocked ∧ s.thread.sem = ⟨0, 1⟩) ∨
      s.thread.owner = .closeUnlock ∨ s.thread.owner = .idle)
    (hwoken : s.Woken) (hclose : s.atClose ≠ none)

theorem Session.new : Session (CELLTaskServer.new : CELLTaskServer τ) :=
  .starting (Or.inl ⟨rfl, rfl⟩) (by simp [CELLTaskServer.new, CELLThread.new]) rfl rfl rfl rfl

/-- `Close` is called while the worker is in its loop. -/
theorem Session.inLoop (hs : s.Session) (hclose : s.atClose = none) : s.run.InLoop := by
  cases hs with
  | starting _ _ _ hrun =>
    rw [hrun]
    trivial
  | running _ _ _ _ hrun => exact hrun
  | closing _ _ _ h => exact absurd hclose h
  | woken _ _ _ h => exact absurd hclose h

/-- What the execution of a task leaves unchanged. -/
theorem execute_frame (s : CELLTaskServer τ) (t : CELLTask τ) (adds : List τ) :
    (s.execute t adds).thread = s.thread ∧ (s.execute t adds).started = s.started ∧
      (s.execute t adds).atClose = s.atClose := by
  have hadds : ∀ s : CELLTaskServer τ, (adds.foldl addTask s).thread = s.thread ∧
      (adds.foldl addTask s).started = s.started ∧
      (adds.foldl addTask s).atClose = s.atClose := by
    induction adds with
    | nil => exact fun _ => ⟨rfl, rfl, rfl⟩
    | cons task adds ih => exact fun s => ih (s.addTask task)
  exact hadds _

/-- What a step of `OnRun` leaves unchanged, until it returns. -/
theorem onRun_cases (h : s.onRun adds = some t) :
    (t.thread = s.thread ∧ t.started = s.started ∧ t.atClose = s.atClose ∧
      (s.thread.isRun = true → s.run.InLoop → t.run.InLoop)) ∨
    (s.run = .ended ∧ s.onThread (.ret 0) = some t) := by
  cases Advances.of_onRun h with
  | @execute task r _ _ _ hphase =>
    obtain ⟨hthread, hstarted, hclose⟩ := execute_frame s task adds
    exact Or.inl ⟨hthread, hstarted, hclose, fun _ => hphase.mpr⟩
  | goTo _ _ _ _ _ hphase => exact Or.inl ⟨rfl, rfl, rfl, hphase⟩
  | drained _ hphase => exact Or.inl ⟨rfl, rfl, rfl, fun _ hloop => absurd hloop hphase⟩
  | ended hfrom =>
    exact Or.inl ⟨rfl, rfl, rfl, fun _ hloop => by rw [hfrom] at hloop; exact hloop.elim⟩
  | ret hfrom h => exact Or.inr ⟨hfrom, h⟩

/-- A step of the thread that is not the owner's leaves the owner where it is. -/
theorem onThread_owner {x : ThreadAct} (hx : x = .ret 0 ∨ x = .worker 0)
    (h : s.onThread x = some t) : t.thread.owner = s.thread.owner := by
  obtain ⟨thread, hact, rfl⟩ := onThread_eq h
  cases CELLThread.stepped hact with
  | start => rcases hx with hx | hx <;> cases hx
  | close => rcases hx with hx | hx <;> cases hx
  | owner => rcases hx with hx | hx <;> cases hx
  | worker _ hw => exact hw.owner

/-- What a step of the worker leaves unchanged. -/
theorem workerStep_frame (h : s.workerStep adds = some t) :
    t.started = s.started ∧ t.atClose = s.atClose ∧ t.thread.owner = s.thread.owner := by
  have hthread : ∀ x, x = .ret 0 ∨ x = .worker 0 → s.onThread x = some t →
      t.started = s.started ∧ t.atClose = s.atClose ∧ t.thread.owner = s.thread.owner := by
    intro x hx h
    have howner := onThread_owner hx h
    obtain ⟨thread, -, rfl⟩ := onThread_eq h
    exact ⟨rfl, rfl, howner⟩
  unfold workerStep at h
  split at h
  · rcases onRun_cases h with ⟨hth, hstarted, hclose, -⟩ | ⟨-, hret⟩
    · exact ⟨hstarted, hclose, congrArg _ hth⟩
    · exact hthread _ (Or.inl rfl) hret
  · exact hthread _ (Or.inl rfl) h
  · exact hthread _ (Or.inr rfl) h

/-- A step of the worker begins a task, or it does not touch what was executed. -/
theorem workerStep_executes (h : s.workerStep adds = some t) :
    (t.executed = s.executed ∧ t.added = s.added ∧ (s.run.Past → t.run.Past)) ∨
    ∃ task r, ¬s.run.Past ∧ ¬RunPC.Past r ∧ t = { s.execute task adds with run := r } := by
  have hthread : ∀ x, s.onThread x = some t → t.executed = s.executed ∧ t.added = s.added ∧
      (s.run.Past → t.run.Past) := by
    intro x h
    obtain ⟨thread, -, rfl⟩ := onThread_eq h
    exact ⟨rfl, rfl, id⟩
  unfold workerStep at h
  split at h
  · cases Advances.of_onRun h with
    | execute hfrom hto => exact Or.inr ⟨_, _, hfrom, hto, rfl⟩
    | goTo hfrom => exact Or.inl ⟨rfl, rfl, fun hpast => absurd hpast hfrom⟩
    | drained => exact Or.inl ⟨rfl, rfl, fun _ => trivial⟩
    | ended => exact Or.inl ⟨rfl, rfl, fun _ => trivial⟩
    | ret _ hret => exact Or.inl (hthread _ hret)
  · exact Or.inl (hthread _ h)
  · exact Or.inl (hthread _ h)

/-- The owner's next step. -/
theorem Session.owner (hs : s.Session) (h : s.onThread .owner = some t) : t.Session := by
  obtain ⟨thread, hact, rfl⟩ := onThread_eq h
  rw [CELLThread.act, CELLThread.ownerStep] at hact
  cases hs with
  | starting howner hisRun hworkers hrun hsem hclose =>
    rcases howner with ⟨ho, -⟩ | ⟨ho | ho | ho | ho, hstarted⟩ <;>
      simp only [ho, reduceCtorEq, iff_false, iff_true, Bool.not_eq_true] at hact hisRun
    · split at hact
      · obtain rfl := Option.some.inj hact
        exact .starting (by simp [hstarted]) (by simp [hisRun]) hworkers hrun hsem hclose
      · simp at hact
    · obtain rfl := Option.some.inj hact
      exact .starting (by simp [hisRun, hstarted]) (by simp [hisRun]) hworkers hrun hsem hclose
    · obtain rfl := Option.some.inj hact
      exact .starting (by simp [hstarted]) (by simp) hworkers hrun hsem hclose
    · obtain rfl := Option.some.inj hact
      exact .running hstarted (Or.inl ⟨Or.inl rfl, hclose⟩) hisRun
        (Or.inl ⟨by simp [hworkers], hrun⟩) (by simp [hrun, RunPC.InLoop]) hsem
  | running hstarted howner hisRun hworking hrun hsem =>
    rcases howner with ⟨ho | ho, hclose⟩ | ⟨ho | ho | ho, hclose⟩ <;>
      simp only [ho, hisRun, if_true, reduceCtorEq] at hact
    · obtain rfl := Option.some.inj hact
      exact .running hstarted (Or.inl ⟨Or.inr rfl, hclose⟩) rfl hworking hrun hsem
    · split at hact
      · obtain rfl := Option.some.inj hact
        exact .running hstarted (Or.inr ⟨by simp, hclose⟩) rfl hworking hrun hsem
      · simp at hact
    · obtain rfl := Option.some.inj hact
      exact .running hstarted (Or.inr ⟨by simp, hclose⟩) rfl hworking hrun hsem
    · obtain rfl := Option.some.inj hact
      exact .closing hstarted (Or.inl ⟨rfl, hsem⟩) hworking hclose
  | closing hstarted howner hworking hclose =>
    rcases howner with ⟨ho, hsem⟩ | ⟨ho, hsem⟩ <;> simp only [ho] at hact
    · obtain rfl := Option.some.inj hact
      exact .closing hstarted (by simp [hsem, CELLSemaphore.enter, CELLSemaphore.new]) hworking
        hclose
    · simp [hsem, CELLSemaphore.ready] at hact
  | woken hstarted howner hwoken hclose =>
    rcases howner with ⟨ho, hsem⟩ | ⟨ho, hsem⟩ | ho | ho <;> simp only [ho, reduceCtorEq] at hact
    · obtain rfl := Option.some.inj hact
      exact .woken hstarted (by simp [hsem, CELLSemaphore.enter]) hwoken hclose
    · split at hact
      · obtain rfl := Option.some.inj hact
        exact .woken hstarted (by simp) hwoken hclose
      · simp at hact
    · obtain rfl := Option.some.inj hact
      exact .woken hstarted (by simp) hwoken hclose

/-- A callback of the worker returns. -/
theorem onThread_ret {c : Callback} (hworkers : s.thread.workers = [.callback c]) :
    s.onThread (.ret 0) = some { s with thread := { s.thread with workers := [c.next] } } := by
  rw [onThread, CELLThread.act_ret (by rw [hworkers]; rfl), CELLThread.setWorker, hworkers]
  rfl

/-- The worker wakes `Close`. -/
theorem workerStep_wakeup (hworkers : s.thread.workers = [.wakeup]) :
    s.workerStep adds = some { s with
      thread := { s.thread with sem := s.thread.sem.notify, workers := [.clear] } } := by
  simp [workerStep, onThread, CELLThread.act, CELLThread.workerStep, CELLThread.stepAt,
    CELLThread.setWorker, hworkers]

/-- The last statement of the worker. -/
theorem workerStep_clear (hworkers : s.thread.workers = [.clear]) :
    s.workerStep adds =
      some { s with thread := { s.thread with isRun := false, workers := [.done] } } := by
  simp [workerStep, onThread, CELLThread.act, CELLThread.workerStep, CELLThread.stepAt,
    CELLThread.setWorker, hworkers]

/-- The worker's next step. -/
theorem Session.worker (hs : s.Session) (h : s.workerStep adds = some t) : t.Session := by
  cases hs with
  | starting howner hisRun hworkers hrun hsem hclose =>
    simp [workerStep, onThread, CELLThread.act, CELLThread.workerStep, hworkers] at h
  | running hstarted howner hisRun hworking hrun hsem =>
    rcases hworking with ⟨hw, hloop⟩ | hw | ⟨-, hended⟩
    · simp only [workerStep, hw, List.getElem?_cons_zero, onThread_ret hw] at h
      obtain rfl := Option.some.inj h
      exact .running hstarted howner hisRun (Or.inr (Or.inl rfl)) hrun hsem
    · simp only [workerStep, hw, List.getElem?_cons_zero] at h
      rcases onRun_cases h with ⟨hthread, hstart, hclose, hloop⟩ | ⟨hended, -⟩
      · exact .running (hstart.trans hstarted) (by rwa [hthread, hclose]) (by rwa [hthread])
          (Or.inr (Or.inl (by rwa [hthread]))) (hloop hisRun hrun) (by rwa [hthread])
      · rw [hended] at hrun
        exact hrun.elim
    · rw [hended] at hrun
      exact hrun.elim
  | closing hstarted howner hworking hclose =>
    rcases hworking with ⟨hw, hloop⟩ | hw | ⟨hw | hw, hended⟩
    · simp only [workerStep, hw, List.getElem?_cons_zero, onThread_ret hw] at h
      obtain rfl := Option.some.inj h
      exact .closing hstarted howner (Or.inr (Or.inl rfl)) hclose
    · simp only [workerStep, hw, List.getElem?_cons_zero] at h
      rcases onRun_cases h with ⟨hthread, hstart, hclose', -⟩ | ⟨hended, hret⟩
      · exact .closing (hstart.trans hstarted) (by rwa [hthread])
          (Or.inr (Or.inl (by rwa [hthread]))) (hclose' ▸ hclose)
      · rw [onThread_ret hw] at hret
        obtain rfl := Option.some.inj hret
        exact .closing hstarted howner (Or.inr (Or.inr ⟨Or.inl rfl, hended⟩)) hclose
    · simp only [workerStep, hw, List.getElem?_cons_zero, onThread_ret hw] at h
      obtain rfl := Option.some.inj h
      exact .closing hstarted howner (Or.inr (Or.inr ⟨Or.inr rfl, hended⟩)) hclose
    · rw [workerStep_wakeup hw] at h
      obtain rfl := Option.some.inj h
      refine .woken hstarted ?_ ⟨Or.inl rfl, hended⟩ hclose
      rcases howner with ⟨ho, hsem⟩ | ⟨ho, hsem⟩
      · exact Or.inl ⟨ho, by simp [hsem, CELLSemaphore.new, CELLSemaphore.notify]⟩
      · exact Or.inr (Or.inl ⟨ho, by simp [hsem, CELLSemaphore.notify]⟩)
  | woken hstarted howner hwoken hclose =>
    obtain ⟨hw | hw, hended⟩ := hwoken
    · rw [workerStep_clear hw] at h
      obtain rfl := Option.some.inj h
      exact .woken hstarted howner ⟨Or.inr rfl, hended⟩ hclose
    · simp [workerStep, onThread, CELLThread.act, CELLThread.workerStep, CELLThread.stepAt,
        hw] at h

theorem Session.addTask (hs : s.Session) (task : τ) : (s.addTask task).Session := by
  cases hs with
  | starting howner hisRun hworkers hrun hsem hclose =>
    exact .starting howner hisRun hworkers hrun hsem hclose
  | running hstarted howner hisRun hworking hrun hsem =>
    exact .running hstarted howner hisRun hworking hrun hsem
  | closing hstarted howner hworking hclose => exact .closing hstarted howner hworking hclose
  | woken hstarted howner hwoken hclose => exact .woken hstarted howner hwoken hclose

/-- `Start` is called in the first phase. -/
theorem Session.start (hs : s.Session) (hfresh : s.started = false)
    (h : { s with started := true }.onThread .start = some t) : t.Session := by
  obtain ⟨thread, hact, rfl⟩ := onThread_eq h
  simp only [CELLThread.act] at hact
  split at hact
  · rename_i hidle
    obtain rfl := Option.some.inj hact
    cases hs with
    | starting howner hisRun hworkers hrun hsem hclose =>
      exact .starting (by simp) (by simpa [hidle] using hisRun) hworkers hrun hsem hclose
    | running hstarted => simp [hfresh] at hstarted
    | closing hstarted => simp [hfresh] at hstarted
    | woken hstarted => simp [hfresh] at hstarted
  · simp at hact

/-- `Close` is called in the second phase. -/
theorem Session.close (hs : s.Session) (hstart : s.started = true) (hnone : s.atClose = none)
    (h : { s with atClose := some s.added }.onThread .close = some t) : t.Session := by
  obtain ⟨thread, hact, rfl⟩ := onThread_eq h
  simp only [CELLThread.act] at hact
  split at hact
  · rename_i hidle
    obtain rfl := Option.some.inj hact
    cases hs with
    | starting howner => simp [hidle, hstart] at howner
    | running hstarted howner hisRun hworking hrun hsem =>
      exact .running hstarted (Or.inr ⟨Or.inl rfl, by simp⟩) hisRun hworking hrun hsem
    | closing _ _ _ hclose => exact absurd hnone hclose
    | woken _ _ _ hclose => exact absurd hnone hclose
  · simp at hact

/-! ## The next task -/

/-- A step of the worker between two tasks. -/
def Idles (s t : CELLTaskServer τ) : Prop :=
  s.workerStep [] = some t ∧ t.executed = s.executed

/-- The next step of the worker is a task. -/
def AtTask (s : CELLTaskServer τ) : Prop :=
  ∃ j task, s.thread.workers = [.callback .onRun] ∧ s.run = .exec j ∧ s.tasks[j]? = some task

/-- By steps between two tasks, the worker comes to a task. -/
def ComesToTask (s : CELLTaskServer τ) : Prop :=
  ∃ t, Relation.ReflTransGen Idles s t ∧ t.AtTask

section ComesToTask

variable (hworkers : s.thread.workers = [.callback .onRun])

include hworkers

theorem ComesToTask.of_onRun (h : s.onRun [] = some t) (hexecuted : t.executed = s.executed)
    (ht : t.ComesToTask) : s.ComesToTask := by
  obtain ⟨u, hu, hat⟩ := ht
  refine ⟨u, .head ⟨?_, hexecuted⟩ hu, hat⟩
  rw [workerStep, hworkers]
  exact h

theorem comesToTask_testTasks (hrun : s.run = .testTasks) (hne : s.tasks ≠ []) :
    s.ComesToTask := by
  refine .of_onRun hworkers (t := { s with run := .exec 0 }) ?_ rfl ?_
  · rw [onRun, hrun]
    dsimp only
    rw [if_neg (List.isEmpty_iff.not.mpr hne)]
  · obtain ⟨task, tasks, htasks⟩ := List.exists_cons_of_ne_nil hne
    exact ⟨_, .refl, 0, task, hworkers, rfl, by rw [htasks]; rfl⟩

theorem comesToTask_handOver (hrun : s.run = .handOver) (hne : s.tasks ++ s.tasksBuf ≠ []) :
    s.ComesToTask := by
  refine .of_onRun hworkers (t := { s with
    tasks := s.tasks ++ s.tasksBuf, tasksBuf := [], run := .testTasks }) ?_ rfl
    (comesToTask_testTasks hworkers rfl hne)
  rw [onRun, hrun]

theorem comesToTask_testBuf (hrun : s.run = .testBuf) (hne : s.tasks ++ s.tasksBuf ≠ []) :
    s.ComesToTask := by
  by_cases hbuf : s.tasksBuf = []
  · rw [hbuf, List.append_nil] at hne
    refine .of_onRun hworkers (t := { s with run := .testTasks }) ?_ rfl
      (comesToTask_testTasks hworkers rfl hne)
    rw [onRun, hrun]
    dsimp only
    rw [if_pos (List.isEmpty_iff.mpr hbuf)]
  · refine .of_onRun hworkers (t := { s with run := .handOver }) ?_ rfl
      (comesToTask_handOver hworkers rfl hne)
    rw [onRun, hrun]
    dsimp only
    rw [if_neg (List.isEmpty_iff.not.mpr hbuf)]

theorem comesToTask_loop (hisRun : s.thread.isRun = true) (hrun : s.run = .loop)
    (hne : s.tasks ++ s.tasksBuf ≠ []) : s.ComesToTask := by
  refine .of_onRun hworkers (t := { s with run := .testBuf }) ?_ rfl
    (comesToTask_testBuf hworkers rfl hne)
  rw [onRun, hrun]
  dsimp only
  rw [if_pos hisRun]

theorem comesToTask_clear (hisRun : s.thread.isRun = true) (hrun : s.run = .clear)
    (hne : s.tasksBuf ≠ []) : s.ComesToTask := by
  refine .of_onRun hworkers (t := { s with tasks := [], run := .loop }) ?_ rfl
    (comesToTask_loop hworkers hisRun rfl hne)
  rw [onRun, hrun]

/-- In the loop, a server with something to do comes to a task. -/
theorem comesToTask (hisRun : s.thread.isRun = true) (hloop : s.run.InLoop)
    (hpending : s.pending ≠ []) : s.ComesToTask := by
  rw [pending] at hpending
  cases hrun : s.run with simp only [hrun] at hpending hloop
  | loop => exact comesToTask_loop hworkers hisRun hrun hpending
  | testBuf => exact comesToTask_testBuf hworkers hrun hpending
  | handOver => exact comesToTask_handOver hworkers hrun hpending
  | testTasks =>
    by_cases htasks : s.tasks = []
    · refine .of_onRun hworkers (t := { s with run := .loop }) ?_ rfl
        (comesToTask_loop hworkers hisRun rfl hpending)
      rw [onRun, hrun]
      dsimp only
      rw [if_pos (List.isEmpty_iff.mpr htasks)]
    · exact comesToTask_testTasks hworkers hrun htasks
  | exec j =>
    cases hget : s.tasks[j]? with
    | some task => exact ⟨s, .refl, j, task, hworkers, hrun, hget⟩
    | none =>
      rw [List.drop_eq_nil_of_le (List.getElem?_eq_none_iff.mp hget), List.nil_append] at hpending
      refine .of_onRun hworkers (t := { s with run := .clear }) ?_ rfl
        (comesToTask_clear hworkers hisRun rfl hpending)
      rw [onRun, hrun]
      dsimp only
      rw [hget]
  | clear => exact comesToTask_clear hworkers hisRun hrun hpending
  | _ => exact hloop.elim

end ComesToTask

/-- While `Close` is not called, a started server with something to do comes to a task. -/
theorem Session.comesToTask (hs : s.Session) (hstarted : s.started = true)
    (hclose : s.atClose = none) (howner : s.thread.owner = .idle) (hpending : s.pending ≠ []) :
    s.ComesToTask := by
  cases hs with
  | starting ho => simp [howner, hstarted] at ho
  | closing _ _ _ hsome => exact absurd hclose hsome
  | woken _ _ _ hsome => exact absurd hclose hsome
  | running _ _ hisRun hworking hloop =>
    rcases hworking with ⟨hw, hrun⟩ | hw | ⟨-, hrun⟩
    · obtain ⟨t, ht, hat⟩ := CELLTaskServer.comesToTask
        (s := { s with thread := { s.thread with workers := [.callback .onRun] } }) rfl hisRun
        hloop hpending
      refine ⟨t, .head ⟨?_, ?_⟩ ht, hat⟩
      · rw [workerStep, hw]
        exact onThread_ret hw
      · rfl
    · exact CELLTaskServer.comesToTask hw hisRun hloop hpending
    · rw [hrun] at hloop
      exact hloop.elim

/-! ## Runs -/

/-- The lists and the phase fit. -/
def Sound (s : CELLTaskServer τ) : Prop :=
  s.Queued ∧ s.Session

theorem Sound.step (hs : s.Sound) (h : s.act a = some t) : t.Sound := by
  obtain ⟨hqueued, hsession⟩ := hs
  cases a with
  | addTask task =>
    obtain rfl := Option.some.inj h
    exact ⟨hqueued.addTask task, hsession.addTask task⟩
  | start =>
    simp only [act] at h
    split at h
    · simp at h
    · rename_i hfresh
      refine ⟨?_, hsession.start (by simpa using hfresh) h⟩
      obtain ⟨thread, -, rfl⟩ := onThread_eq h
      exact ⟨hqueued.calls, hqueued.added, hqueued.loop, hqueued.drain, hqueued.atClose,
        hqueued.drained⟩
  | close =>
    simp only [act] at h
    split at h
    · rename_i hguard
      simp only [Bool.and_eq_true, Option.isNone_iff_eq_none] at hguard
      refine ⟨?_, hsession.close hguard.1 hguard.2 h⟩
      have hloop := hsession.inLoop hguard.2
      obtain ⟨thread, -, rfl⟩ := onThread_eq h
      refine ⟨hqueued.calls, hqueued.added, hqueued.loop, hqueued.drain, ?_, ?_⟩
      · rintro before ⟨⟩
        exact List.prefix_refl _
      · intro (hr : s.run = .drain none ∨ s.run = .ended)
        rcases hr with hr | hr <;> rw [hr] at hloop <;> exact hloop.elim
    · simp at h
  | owner =>
    refine ⟨?_, hsession.owner h⟩
    obtain ⟨thread, -, rfl⟩ := onThread_eq h
    exact hqueued.thread thread
  | worker adds =>
    refine ⟨?_, hsession.worker h⟩
    simp only [act, workerStep] at h
    split at h
    · exact hqueued.onRun h
    · obtain ⟨thread, -, rfl⟩ := onThread_eq h
      exact hqueued.thread thread
    · obtain ⟨thread, -, rfl⟩ := onThread_eq h
      exact hqueued.thread thread

theorem Sound.run {tr : List (CELLTaskServer τ × TaskAct τ)} {s₀ : CELLTaskServer τ}
    (hinit : (taskServer τ).init s₀) (hrun : (taskServer τ).Run s₀ tr s) : s.Sound := by
  refine hrun.invariant (fun _ _ _ hs hst => hs.step (Machine.ofStep_step.mp hst)) ?_
  obtain rfl : s₀ = new := hinit
  exact ⟨.new, .new⟩

/-- `Close` is at its end. -/
def Returns (s : CELLTaskServer τ) : Prop :=
  s.atClose ≠ none ∧ (s.thread.owner = .closeUnlock ∨ s.thread.owner = .idle)

/-- Where `Close` returns, the drain has ended. -/
theorem Session.ended_of_returns (hs : s.Session) (hret : s.Returns) : s.run = .ended := by
  obtain ⟨hclose, howner⟩ := hret
  cases hs with
  | starting _ _ _ _ _ hnone => exact absurd hnone hclose
  | running _ ho => rcases ho with ⟨-, hnone⟩ | ⟨ho, -⟩ <;> grind
  | closing _ ho => rcases ho with ⟨ho, -⟩ | ⟨ho, -⟩ <;> simp [ho] at howner
  | woken _ _ hwoken => exact hwoken.2

end CELLTaskServer

/-- The task queue loses and reorders nothing. In every state of a run the executed tasks
are a prefix of the added ones, no call of `addTask` is executed twice, and when `Close`
returns everything is executed that had been added when it was called. -/
theorem tasks_in_order {s₀ s : CELLTaskServer τ} {tr : List (CELLTaskServer τ × TaskAct τ)}
    (hinit : (taskServer τ).init s₀) (hrun : (taskServer τ).Run s₀ tr s) :
    s.executed <+: s.added ∧ (s.executed.map CELLTask.call).Nodup ∧
      (s.Returns → ∀ before, s.atClose = some before → before <+: s.executed) := by
  obtain ⟨hqueued, hsession⟩ := CELLTaskServer.Sound.run hinit hrun
  have hpre := hqueued.executed_prefix
  refine ⟨hpre, ?_, fun hret => hqueued.drained (Or.inr (hsession.ended_of_returns hret))⟩
  have hcalls : s.executed.map CELLTask.call <+: List.range s.added.length :=
    hqueued.calls ▸ hpre.map _
  exact List.nodup_range.sublist hcalls.sublist

/-- A task adds another one, which is executed in the drain behind `Close`; a third one
comes too late. -/
theorem tasks_in_order_drain : ∃ s₀ tr s, (taskServer ℕ).init s₀ ∧ (taskServer ℕ).Run s₀ tr s ∧
    s.added.map CELLTask.body = [7, 8, 9] ∧ s.atClose = some [⟨0, 7⟩, ⟨1, 8⟩] ∧
    [⟨0, 7⟩, ⟨1, 8⟩] <+: s.executed := by
  let acts : List (TaskAct ℕ) := [.addTask 7, .start, .owner, .owner, .owner, .owner, .owner,
    .worker [], .worker [], .worker [], .worker [], .worker [], .worker [8], .close, .owner,
    .owner, .owner, .worker [], .worker [], .worker [], .worker [], .worker [], .worker [],
    .addTask 9, .worker [], .worker [], .worker [], .worker [], .owner]
  have heval : (acts.foldlM CELLTaskServer.act .new).map (fun s =>
      (s.thread.owner, s.added.map CELLTask.body, s.atClose)) =
        some (.closeUnlock, [7, 8, 9], some [⟨0, 7⟩, ⟨1, 8⟩]) := by
    decide
  obtain ⟨tr, s, hrun, -, hstate⟩ := Machine.Run.of_act_map heval
  simp only [Prod.mk.injEq] at hstate
  obtain ⟨howner, hadded, hclose⟩ := hstate
  have hret : s.Returns := ⟨by simp [hclose], Or.inl howner⟩
  exact ⟨_, tr, s, rfl, hrun, hadded, hclose, (tasks_in_order rfl hrun).2.2 hret _ hclose⟩

end CellNet
